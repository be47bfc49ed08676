import IreeRocket.Core.PackedSlots
import Mathlib.Algebra.Order.BigOperators.GroupWithZero.List

/-!
# The three byte counts of a coefficient tensor

`try_weight_bytes` counts in `u64` and refuses past `u32`; `weight_bytes`, which the CNA is programmed
with, counts in `u32`; `packed_bytes` is the packer's own count. All three are the kernel positions times
the bytes of one position. `weight_bytes` passes through the bits of one position, and these may leave
`u32` where the bytes do not. So the counts agree exactly when the bits of one position fit.
-/

namespace IreeRocket

/-- A product whose factors are positive is checked through when it fits. -/
theorem checkedProduct_of_lt {a : Nat} {factors : List Nat} (hpos : ∀ b ∈ factors, 0 < b)
    (h : a * factors.prod < 2 ^ 64) : checkedProduct a factors = some (a * factors.prod) := by
  induction factors generalizing a with
  | nil => simp [checkedProduct]
  | cons b factors ih =>
    rw [List.prod_cons, ← Nat.mul_assoc] at h ⊢
    have hrest : 0 < factors.prod :=
      List.prod_pos fun c hc => hpos c (List.mem_cons_of_mem _ hc)
    have hfirst : a * b ≤ a * b * factors.prod := Nat.le_mul_of_pos_right _ hrest
    rw [checkedProduct, checkedMul, if_pos (by omega), Option.bind_some]
    exact ih (fun c hc => hpos c (List.mem_cons_of_mem _ hc)) h

namespace Conv.Shape

/-- The coefficients of one kernel position, as no arithmetic wraps them. -/
def tapCoefficients (s : Shape) : Nat :=
  if s.depthwise then s.cbufAtoms * s.precision.channelsPerAtom
  else
    (if s.precision.sharesFp16Layout then s.cbufAtoms else s.featureAtoms) *
      s.precision.channelsPerAtom *
      (if 16 ≤ s.precision.elementBits then s.outChannels else nextMultipleOf s.outChannels 2)

/-- The bits of one kernel position fit `u32`. -/
def TapBitsFit (s : Shape) : Prop := s.tapCoefficients * s.precision.elementBits < 2 ^ 32

/-- The bytes of one kernel position. -/
def tapBytes (s : Shape) : Nat := s.tapCoefficients * s.precision.elementBytes

end Conv.Shape

namespace Weights

open Conv

/-- The plans that are made: a convolution's, and a matmul's over its `u32` extents. -/
inductive WeightPlan.Made (policy : PlanningPolicy) : WeightPlan → Prop
  | forConv {shape : Shape} (built : shape.Built policy) (kernels : Kernels) :
    Made policy (.forConv shape kernels)
  | forMatmul {shape : Fc.Shape} {plan : WeightPlan} (hk : shape.k < 2 ^ 32) (hn : shape.n < 2 ^ 32)
    (h : WeightPlan.forMatmul policy shape = .ok plan) : Made policy plan

/-- The byte counts of a plan agree, and every filter of its size packs to as many bytes. What it packs
to does not depend on the destination. -/
structure Accounted (plan : WeightPlan) (bytes : Nat) : Prop where
  packedBytes : plan.packedBytes = .ok bytes
  tryWeightBytes : plan.shape.tryWeightBytes plan.kernels = .ok bytes
  weightBytes : plan.shape.weightBytes plan.kernels = bytes
  packs : ∃ length, plan.denseBytes = .ok length ∧ ∀ dense : Bytes, dense.length = length →
    ∃ fresh : Bytes, fresh.length = bytes ∧ ∀ packed : Bytes, bytes ≤ packed.length →
      plan.packInto dense packed = (.ok bytes, fresh ++ packed.drop bytes)

section

variable {policy : PlanningPolicy} {plan : WeightPlan} {s : Shape} {kernels : Kernels}

theorem WeightPlan.Made.built (h : plan.Made policy) : plan.shape.Built policy := by
  cases h with
  | forConv built _ => exact built
  | forMatmul hk hn h =>
    unfold WeightPlan.forMatmul Fc.Shape.tryAsConvShape at h
    simp only [bind_ok, pure_ok] at h
    obtain ⟨conv, ⟨base, hbase, padded, hpadded, hconv⟩, rfl⟩ := h
    exact .withActivation (.withPadding (.withPrecision (by decide) hk hn hbase) hpadded) hconv

theorem WeightPlan.Made.affine (h : plan.Made policy) (hzero : plan.weightZeroPoint ≠ none) :
    plan.shape.precision.elementBytes = 1 := by
  cases h with
  | forConv built kernels => exact elementBytes_of_zeroPoint hzero
  | forMatmul hk hn h =>
    unfold WeightPlan.forMatmul at h
    simp only [bind_ok, pure_ok] at h
    obtain ⟨conv, -, rfl⟩ := h
    exact absurd rfl hzero

/-! ### The CNA's count -/

/-- The bytes of one position as `u32` arithmetic leaves them. -/
theorem bytesFor_wrap (p : Precision) (hbits : p.elementBits % 8 = 0) (elements : Nat) :
    p.bytesFor (wrap32 elements) = elements * p.elementBytes % 2 ^ 29 := by
  have height : p.elementBits = 8 * p.elementBytes := by
    unfold Precision.elementBytes
    omega
  unfold Precision.bytesFor wrap32
  rw [Nat.mod_mul_mod, height, Nat.mul_left_comm, show (2 : Nat) ^ 32 = 8 * 2 ^ 29 from rfl,
    Nat.mul_mod_mul_left, Nat.mul_div_cancel_left _ (by decide)]

/-- The coefficients of one position, wrapped early or late. -/
theorem wrap_coefficients (hdense : ¬ s.depthwise = true) :
    wrap32 (s.weightChannels * s.programmedKernels) = wrap32 s.tapCoefficients := by
  have hchannels : s.weightChannels % 2 ^ 32 =
      (if s.precision.sharesFp16Layout then s.cbufAtoms else s.featureAtoms) *
        s.precision.channelsPerAtom % 2 ^ 32 := by
    unfold Shape.weightChannels Shape.paddedChannels
    split_ifs <;> exact Nat.mod_mod _ _
  have hkernels : s.programmedKernels % 2 ^ 32 =
      (if 16 ≤ s.precision.elementBits then s.outChannels
        else nextMultipleOf s.outChannels 2) % 2 ^ 32 := by
    unfold Shape.programmedKernels
    rw [if_neg hdense]
    split_ifs
    · rfl
    · exact Nat.mod_mod _ _
  unfold wrap32 Shape.tapCoefficients
  rw [if_neg hdense, Nat.mul_mod, hchannels, hkernels, ← Nat.mul_mod]

/-- **The programmed count wraps the bytes of one position at `2 ^ 29`.** -/
theorem weightBytes_eq (hbits : s.precision.elementBits % 8 = 0) :
    s.weightBytes kernels = wrap32 (kernels.1 * kernels.2 * (s.tapBytes % 2 ^ 29)) := by
  unfold Shape.weightBytes Shape.tapBytes
  simp only [kernelProgramming_height, kernelProgramming_width]
  split_ifs with hdepthwise
  · rw [bytesFor_wrap _ hbits, Shape.tapCoefficients, if_pos hdepthwise]
  · rw [wrap_coefficients hdepthwise, bytesFor_wrap _ hbits]

theorem tapBitsFit_iff (hbits : s.precision.elementBits % 8 = 0) :
    s.TapBitsFit ↔ s.tapBytes < 2 ^ 29 := by
  have height : s.precision.elementBits = 8 * s.precision.elementBytes := by
    unfold Precision.elementBytes
    omega
  unfold Shape.TapBitsFit Shape.tapBytes
  rw [height, Nat.mul_left_comm]
  omega

/-- The programmed count is the true one only if the bits of a position fit. -/
theorem tapBitsFit_of_weightBytes (hbits : s.precision.elementBits % 8 = 0)
    (hpos : 0 < kernels.1 * kernels.2)
    (h : s.weightBytes kernels = kernels.1 * kernels.2 * s.tapBytes) : s.TapBitsFit := by
  rw [tapBitsFit_iff hbits]
  rw [weightBytes_eq hbits] at h
  have hwrap : wrap32 (kernels.1 * kernels.2 * (s.tapBytes % 2 ^ 29)) ≤
      kernels.1 * kernels.2 * (s.tapBytes % 2 ^ 29) := Nat.mod_le _ _
  have hle : s.tapBytes ≤ s.tapBytes % 2 ^ 29 := Nat.le_of_mul_le_mul_left (h ▸ hwrap) hpos
  exact hle.trans_lt (Nat.mod_lt _ (by decide))

/-- Where they fit, and the tensor fits `u32`, it is. -/
theorem weightBytes_of_tapBitsFit (hbits : s.precision.elementBits % 8 = 0) (hfit : s.TapBitsFit)
    (htotal : kernels.1 * kernels.2 * s.tapBytes < 2 ^ 32) :
    s.weightBytes kernels = kernels.1 * kernels.2 * s.tapBytes := by
  rw [weightBytes_eq hbits, Nat.mod_eq_of_lt ((tapBitsFit_iff hbits).mp hfit), wrap32_of_lt htotal]

/-! ### The checked count -/

/-- What the checked count computes when the coefficients of a position fit `u32` and no product leaves
`u64`. -/
theorem tryWeightBytes_eq (hbits : s.precision.elementBits % 8 = 0)
    (hk : s.tryKernelProgramming kernels = .ok (s.kernelProgramming kernels))
    (helements : (if s.depthwise then s.cbufAtoms * s.precision.channelsPerAtom
      else s.weightChannels * s.programmedKernels) = s.tapCoefficients)
    (hsmall : s.tapBytes < 2 ^ 50) {bytes : Nat} :
    s.tryWeightBytes kernels = .ok bytes ↔
      kernels.1 * kernels.2 * s.tapBytes < 2 ^ 32 ∧ kernels.1 * kernels.2 * s.tapBytes = bytes := by
  obtain ⟨⟨hheight, hwidth⟩, -, -⟩ := tryKernelProgramming_ok.mp hk
  simp only [backed, Bool.and_eq_true, decide_eq_true_eq] at hheight hwidth
  have height : s.precision.elementBits = 8 * s.precision.elementBytes := by
    unfold Precision.elementBytes
    omega
  have htap : s.tapCoefficients * s.precision.elementBits = 8 * s.tapBytes := by
    rw [height, Nat.mul_left_comm]
    rfl
  have hrow : s.tapBytes * kernels.1 ≤ 2 ^ 50 * 11 := Nat.mul_le_mul hsmall.le hheight.2
  have htotal : s.tapBytes * kernels.1 * kernels.2 ≤ 2 ^ 50 * 11 * 11 :=
    Nat.mul_le_mul hrow hwidth.2
  have horder : s.tapBytes * kernels.1 * kernels.2 = kernels.1 * kernels.2 * s.tapBytes := by
    rw [Nat.mul_assoc, Nat.mul_comm]
  unfold Shape.tryWeightBytes
  simp only [bind_ok, refuseUnless_ok, pure_ok, exists_const, hk, Except.ok.injEq, exists_eq_left',
    kernelProgramming_height, kernelProgramming_width, helements, htap]
  rw [wrap64_of_lt (n := 8 * s.tapBytes) (by omega), Nat.mul_div_cancel_left _ (by decide),
    wrap64_of_lt (n := s.tapBytes * kernels.1) (by omega), wrap64_of_lt (by omega), horder]

/-! ### The packer's count -/

theorem bits_eq (hbits : s.precision.elementBits % 8 = 0) :
    s.precision.elementBytes * 8 = s.precision.elementBits := by
  unfold Precision.elementBytes
  omega

theorem featureAtoms_eq (hin : 0 < s.inChannels) :
    s.featureAtoms = s.inChannels ⌈/⌉ s.precision.channelsPerAtom := by
  have hround := le_ceilDiv_mul s.inChannels s.precision.channelsPerAtom_pos
  refine max_eq_left (Nat.pos_of_ne_zero fun hzero => ?_)
  rw [hzero, Nat.zero_mul] at hround
  omega

/-- The packer's layout has the coefficients of a position. -/
theorem layout_coefficients (hs : s.WellFormed policy) (hbits : s.precision.elementBits % 8 = 0)
    (hdense : ¬ s.depthwise = true) : ∃ layout,
      WeightLayout.new s.inChannels s.outChannels (s.precision.elementBytes * 8) = .ok layout ∧
        layout.paddedInputChannels * layout.programmedOutputChannels = s.tapCoefficients ∧
        s.inChannels ≤ layout.paddedInputChannels ∧ s.outChannels ≤ layout.programmedOutputChannels := by
  have hin := hs.in_pos
  have hout := hs.out_pos
  obtain ⟨layout, hlayout⟩ : ∃ layout,
      WeightLayout.new s.inChannels s.outChannels s.precision.elementBits = .ok layout := by
    unfold WeightLayout.new
    simp only [bind_ok, unlessErr_ok, pure_ok, exists_const]
    refine ⟨_, ⟨by omega, by omega, ?_⟩, rfl⟩
    rcases s.precision.elementBits_cases with h | h | h | h <;> simp [h]
  obtain ⟨-, -, -, hpadded, hprogrammed, -⟩ := WeightLayout.new_ok hlayout
  rw [bits_eq hbits]
  refine ⟨layout, hlayout, ?_, hpadded, hprogrammed⟩
  unfold WeightLayout.new at hlayout
  simp only [bind_ok, unlessErr_ok, pure_ok, exists_const] at hlayout
  obtain ⟨-, rfl⟩ := hlayout
  unfold Shape.tapCoefficients Shape.cbufAtoms
  rw [if_neg hdense, featureAtoms_eq hin]
  unfold quadAtoms Precision.channelsPerAtom Precision.sharesFp16Layout
  dsimp only
  congr 1
  · by_cases hhalf : s.precision.elementBits = 16
    · simp [hhalf]
    · simp [hhalf]
  · by_cases hwide : 16 ≤ s.precision.elementBits
    · rw [if_neg (Nat.not_lt.mpr hwide), if_pos hwide]
    · rw [if_pos (Nat.lt_of_not_le hwide), if_neg hwide]

/-- The packed size, where it is one. -/
theorem storageSize_eq (hs : s.WellFormed policy) (hbits : s.precision.elementBits % 8 = 0)
    (hdense : ¬ s.depthwise = true) {bytes : Nat}
    (h : rocketWeightStorageSize kernels.1 kernels.2 s.inChannels s.outChannels
      s.precision.elementBytes = .ok bytes) : bytes = kernels.1 * kernels.2 * s.tapBytes := by
  obtain ⟨layout, hlayout, hcoefficients, -, -⟩ := layout_coefficients hs hbits hdense
  have hwhole : (layout.slots kernels.1 kernels.2 s.inChannels s.outChannels).length * _ = bytes :=
    slots_whole h hlayout
  rw [WeightLayout.length_slots_eq hlayout] at hwhole
  rw [← hwhole, Shape.tapBytes, ← hcoefficients]
  ring

/-- A tensor of a `u32` of bytes has a packed size. -/
theorem storageSize_of_lt (hs : s.WellFormed policy) (hbits : s.precision.elementBits % 8 = 0)
    (hdense : ¬ s.depthwise = true) (hheight : 0 < kernels.1) (hwidth : 0 < kernels.2)
    (htotal : kernels.1 * kernels.2 * s.tapBytes < 2 ^ 32) :
    rocketWeightStorageSize kernels.1 kernels.2 s.inChannels s.outChannels
      s.precision.elementBytes = .ok (kernels.1 * kernels.2 * s.tapBytes) := by
  obtain ⟨layout, hlayout, hcoefficients, hin, hout⟩ := layout_coefficients hs hbits hdense
  have hinPos := hs.in_pos
  have houtPos := hs.out_pos
  have helement : s.precision.elementBytes ∈ [1, 2, 4] := by
    have hbytes := bits_eq hbits
    simp only [List.mem_cons, List.not_mem_nil, or_false]
    rcases s.precision.elementBits_cases with h | h | h | h <;> omega
  have hbytePos : 0 < s.precision.elementBytes := by
    simp only [List.mem_cons, List.not_mem_nil, or_false] at helement
    omega
  have hproduct : kernels.1 * [kernels.2, layout.paddedInputChannels,
      layout.programmedOutputChannels, s.precision.elementBytes * 8].prod =
        kernels.1 * kernels.2 * s.tapBytes * 8 := by
    rw [Shape.tapBytes, ← hcoefficients]
    simp only [List.prod_cons, List.prod_nil]
    ring
  have hchecked : checkedProduct kernels.1 [kernels.2, layout.paddedInputChannels,
      layout.programmedOutputChannels, s.precision.elementBytes * 8] = _ := checkedProduct_of_lt
    (by simp only [List.mem_cons, List.not_mem_nil, or_false, forall_eq_or_imp, forall_eq]; omega)
    (by rw [hproduct]; omega)
  rw [hproduct] at hchecked
  unfold rocketWeightStorageSize rocketWeightStorageSizeBits
  simp only [bind_ok, unlessErr_ok, okOr_ok, pure_ok, exists_const, hlayout, Except.ok.injEq,
    exists_eq_left']
  exact ⟨helement, by omega, _, hchecked, Nat.mul_div_cancel _ (by decide)⟩

/-! ### The counts agree -/

/-- A depthwise position has few coefficients. -/
theorem depthwise_tap (hs : s.WellFormed policy) (hdepthwise : s.depthwise = true) :
    s.tapCoefficients = s.cbufAtoms * s.precision.channelsPerAtom ∧ s.inChannels ≤ s.tapCoefficients ∧
      s.tapCoefficients < 2 ^ 33 ∧ s.precision.elementBytes ∈ [1, 2] ∧
      s.precision.elementBits % 8 = 0 := by
  have hin := hs.in_lt
  have hcpa := s.precision.channelsPerAtom_pos
  have hatoms : s.precision.channelsPerAtom ≤ 16 := by
    have hmul := s.precision.channelsPerAtom_mul_elementBits
    rcases (hs.depthwise_precision hdepthwise).1 with h | h <;> rw [h] at hmul <;> omega
  have htap : s.tapCoefficients = s.cbufAtoms * s.precision.channelsPerAtom := if_pos hdepthwise
  have hfeature := featureAtoms_eq hs.in_pos
  have hround := le_ceilDiv_mul s.inChannels hcpa
  have hless := ceilDiv_mul_lt s.inChannels hcpa
  rw [← hfeature] at hround hless
  have hquad : s.cbufAtoms * s.precision.channelsPerAtom ≤
      (s.featureAtoms + 1) * s.precision.channelsPerAtom := Nat.mul_le_mul_right _ (quadAtoms_le _)
  rw [Nat.succ_mul] at hquad
  refine ⟨htap, ?_, by omega, ?_, ?_⟩
  · rw [htap]
    exact hround.trans (Nat.mul_le_mul_right _ (le_quadAtoms _))
  · unfold Precision.elementBytes
    rcases (hs.depthwise_precision hdepthwise).1 with h | h <;> simp [h]
  · rcases (hs.depthwise_precision hdepthwise).1 with h | h <;> omega

/-- The checked count of a depthwise tensor is exact. -/
theorem depthwise_tryWeightBytes (hs : s.WellFormed policy) (hdepthwise : s.depthwise = true)
    (hk : s.tryKernelProgramming kernels = .ok (s.kernelProgramming kernels)) {bytes : Nat} :
    s.tryWeightBytes kernels = .ok bytes ↔
      kernels.1 * kernels.2 * s.tapBytes < 2 ^ 32 ∧ kernels.1 * kernels.2 * s.tapBytes = bytes := by
  obtain ⟨htap, -, hsmall, -, hbits⟩ := depthwise_tap hs hdepthwise
  have helement := s.precision.elementBytes_le
  have hbytes : s.tapBytes ≤ 2 ^ 33 * 4 := Nat.mul_le_mul hsmall.le helement
  exact tryWeightBytes_eq hbits hk (by rw [if_pos hdepthwise, htap]) (by omega)

/-- A position whose bits fit has its channels and kernels in `u32`. -/
theorem coefficients_of_tapBitsFit (hs : s.WellFormed policy) (hdense : ¬ s.depthwise = true)
    (hfit : s.TapBitsFit) : s.weightChannels * s.programmedKernels = s.tapCoefficients := by
  have hbits : 0 < s.precision.elementBits := by
    rcases s.precision.elementBits_cases with h | h | h | h <;> omega
  have htap : s.tapCoefficients < 2 ^ 32 := (Nat.le_mul_of_pos_right _ hbits).trans_lt hfit
  have hchannels : 0 < (if s.precision.sharesFp16Layout then s.cbufAtoms else s.featureAtoms) *
      s.precision.channelsPerAtom := by
    apply Nat.mul_pos _ s.precision.channelsPerAtom_pos
    split_ifs
    · exact s.cbufAtoms_pos
    · exact s.featureAtoms_pos
  have hkernels : 0 < if 16 ≤ s.precision.elementBits then s.outChannels
      else nextMultipleOf s.outChannels 2 := by
    have hround := le_nextMultipleOf s.outChannels (b := 2) (by decide)
    have hout := hs.out_pos
    split_ifs <;> omega
  unfold Shape.tapCoefficients at htap ⊢
  rw [if_neg hdense] at htap ⊢
  have hfirst := (Nat.le_mul_of_pos_right _ hkernels).trans_lt htap
  have hsecond := (Nat.le_mul_of_pos_left _ hchannels).trans_lt htap
  unfold Shape.weightChannels Shape.programmedKernels Shape.paddedChannels
  rw [if_neg hdense]
  congr 1
  · split_ifs with hshares
    · rw [if_pos hshares] at hfirst
      exact wrap32_of_lt hfirst
    · rw [if_neg hshares] at hfirst
      exact wrap32_of_lt hfirst
  · split_ifs with hwide
    · rfl
    · rw [if_neg hwide] at hsecond
      exact wrap32_of_lt hsecond

/-- Where the bits of a position fit, the checked count is exact. -/
theorem tryWeightBytes_of_tapBitsFit (hs : s.WellFormed policy)
    (hbits : s.precision.elementBits % 8 = 0)
    (hk : s.tryKernelProgramming kernels = .ok (s.kernelProgramming kernels)) (hfit : s.TapBitsFit)
    {bytes : Nat} : s.tryWeightBytes kernels = .ok bytes ↔
      kernels.1 * kernels.2 * s.tapBytes < 2 ^ 32 ∧ kernels.1 * kernels.2 * s.tapBytes = bytes := by
  by_cases hdepthwise : s.depthwise = true
  · exact depthwise_tryWeightBytes hs hdepthwise hk
  · have hsmall := (tapBitsFit_iff hbits).mp hfit
    refine tryWeightBytes_eq hbits hk ?_ (by omega)
    rw [if_neg hdepthwise, coefficients_of_tapBitsFit hs hdepthwise hfit]

/-- The depthwise packer's size, and its channels. -/
theorem depthwise_size (hs : s.WellFormed policy) (hdepthwise : s.depthwise = true)
    (hfit : s.TapBitsFit) (hwidth : 0 < kernels.2)
    (htotal : kernels.1 * kernels.2 * s.tapBytes < 2 ^ 32) :
    s.inChannels ≤ s.depthwisePaddedChannels ∧
      checkedProduct kernels.1 [kernels.2, s.depthwisePaddedChannels, s.precision.elementBytes] =
        some (kernels.1 * kernels.2 * s.tapBytes) := by
  obtain ⟨htap, hin, -, helement, hbits⟩ := depthwise_tap hs hdepthwise
  have hinPos := hs.in_pos
  have hbytePos : 0 < s.precision.elementBytes := by
    simp only [List.mem_cons, List.not_mem_nil, or_false] at helement
    omega
  have hsmall : s.tapCoefficients < 2 ^ 32 :=
    (Nat.le_mul_of_pos_right _ (by have := bits_eq hbits; omega)).trans_lt hfit
  have hpadded : s.depthwisePaddedChannels = s.tapCoefficients := by
    rw [htap] at hsmall ⊢
    exact wrap32_of_lt hsmall
  have hproduct : kernels.1 * [kernels.2, s.tapCoefficients, s.precision.elementBytes].prod =
      kernels.1 * kernels.2 * s.tapBytes := by
    rw [Shape.tapBytes]
    simp only [List.prod_cons, List.prod_nil]
    ring
  rw [hpadded]
  refine ⟨hin, ?_⟩
  rw [← hproduct]
  exact checkedProduct_of_lt
    (by simp only [List.mem_cons, List.not_mem_nil, or_false, forall_eq_or_imp, forall_eq]; omega)
    (by rw [hproduct]; omega)

/-- The dense tensor is no larger than the packed one. -/
theorem denseElements_le (hs : s.WellFormed policy) (hbits : s.precision.elementBits % 8 = 0) :
    s.inChannels * (if s.depthwise then 1 else s.outChannels) ≤ s.tapCoefficients := by
  by_cases hdepthwise : s.depthwise = true
  · obtain ⟨-, hin, -, -, -⟩ := depthwise_tap hs hdepthwise
    rw [if_pos hdepthwise, Nat.mul_one]
    exact hin
  · obtain ⟨layout, -, hcoefficients, hin, hout⟩ := layout_coefficients hs hbits hdepthwise
    rw [if_neg hdepthwise, ← hcoefficients]
    exact Nat.mul_le_mul hin hout

variable {dense packed : Bytes} {bytes : Nat}

/-- A depthwise packer accepts what is large enough. -/
theorem packDepthwise_accepts {kh kw channels padded elementSize denseLen length : Nat}
    (hshape : kh ≠ 0 ∧ kw ≠ 0 ∧ channels ≠ 0 ∧ channels ≤ padded ∧ elementSize ∈ [1, 2])
    (hdense : checkedProduct kh [kw, channels, elementSize] = some denseLen)
    (hread : denseLen ≤ dense.length)
    (hsize : checkedProduct kh [kw, padded, elementSize] = some length)
    (hle : length ≤ packed.length) :
    ∃ out, packDepthwiseToRocketWeights dense kh kw channels padded elementSize packed =
      .ok (length, out) := by
  unfold packDepthwiseToRocketWeights
  simp only [bind_ok, unlessErr_ok, okOr_ok, pure_ok, exists_const]
  exact ⟨_, hshape, denseLen, hdense, hread, length, hsize, hle, rfl⟩

/-- The factors of a plan's dense size. -/
def WeightPlan.denseFactors (plan : WeightPlan) : List Nat :=
  [plan.kernels.2, plan.shape.inChannels] ++
    (if plan.shape.depthwise then [] else [plan.shape.outChannels]) ++ [plan.shape.precision.elementBytes]

/-- The dense size of a tensor of a `u32` of bytes does not overflow. -/
theorem denseFactors_fit (hs : plan.shape.WellFormed policy)
    (hbits : plan.shape.precision.elementBits % 8 = 0) (hwidth : 0 < plan.kernels.2)
    (htotal : plan.kernels.1 * plan.kernels.2 * plan.shape.tapBytes < 2 ^ 32) :
    ∃ length, checkedProduct plan.kernels.1 plan.denseFactors = some length := by
  have hin := hs.in_pos
  have hout := hs.out_pos
  have hbytePos : 0 < plan.shape.precision.elementBytes := by
    have hbytes := bits_eq hbits
    rcases plan.shape.precision.elementBits_cases with h | h | h | h <;> omega
  have hproduct : plan.kernels.1 * plan.denseFactors.prod = plan.kernels.1 * plan.kernels.2 *
      (plan.shape.inChannels * (if plan.shape.depthwise then 1 else plan.shape.outChannels) *
        plan.shape.precision.elementBytes) := by
    unfold WeightPlan.denseFactors
    cases plan.shape.depthwise <;> simp [Nat.mul_assoc]
  have hle : plan.kernels.1 * plan.denseFactors.prod ≤
      plan.kernels.1 * plan.kernels.2 * plan.shape.tapBytes := by
    rw [hproduct]
    exact Nat.mul_le_mul_left _ (Nat.mul_le_mul_right _ (denseElements_le hs hbits))
  refine ⟨_, checkedProduct_of_lt ?_ (by omega)⟩
  unfold WeightPlan.denseFactors
  cases plan.shape.depthwise <;> simp <;> omega

/-- The packer a plan selects accepts a filter of the plan's size. -/
theorem select_accepts (hplan : plan.Made policy) (hbits : plan.shape.precision.elementBits % 8 = 0)
    (hfit : plan.shape.TapBitsFit) (hheight : 0 < plan.kernels.1) (hwidth : 0 < plan.kernels.2)
    (hbytes : plan.kernels.1 * plan.kernels.2 * plan.shape.tapBytes = bytes) (htotal : bytes < 2 ^ 32)
    (hdense : checkedProduct plan.kernels.1 plan.denseFactors = some dense.length)
    (hle : bytes ≤ packed.length) :
    ∃ out, plan.select plan.shape.outChannels plan.shape.precision.elementBytes dense packed =
      .ok (bytes, out) := by
  have hs := hplan.built.wellFormed
  have hin := hs.in_pos
  subst hbytes
  unfold WeightPlan.denseFactors at hdense
  unfold WeightPlan.select
  dsimp only
  by_cases hdepthwise : plan.shape.depthwise = true
  · obtain ⟨hchannels, hsize⟩ := depthwise_size hs hdepthwise hfit hwidth htotal
    obtain ⟨-, -, -, helement, -⟩ := depthwise_tap hs hdepthwise
    rw [if_pos hdepthwise] at hdense ⊢
    exact packDepthwise_accepts ⟨by omega, by omega, by omega, hchannels, helement⟩ hdense le_rfl hsize hle
  · have hsize := storageSize_of_lt hs hbits hdepthwise hheight hwidth htotal
    rw [if_neg hdepthwise] at hdense ⊢
    cases hzero : plan.weightZeroPoint with
    | none => exact packHwcf_accepts le_rfl hdense le_rfl hsize hle
    | some zeroPoint =>
      have hone := hplan.affine (by rw [hzero]; exact Option.some_ne_none _)
      rw [hone] at hdense hsize
      dsimp only
      rw [if_neg (Nat.lt_irrefl _)]
      unfold packHwcfToRocketWeightsAffineI8
      simp only [bind_ok, unlessErr_ok, exists_const]
      obtain ⟨out, hout⟩ := packHwcf_accepts le_rfl hdense le_rfl hsize hle
      exact ⟨out, List.length_replicate, hout⟩

theorem kernel_of_tryWeightBytes (h : s.tryWeightBytes kernels = .ok bytes) :
    s.tryKernelProgramming kernels = .ok (s.kernelProgramming kernels) ∧ 0 < kernels.1 ∧
      0 < kernels.2 := by
  obtain ⟨kernel, hkernel⟩ : ∃ kernel, s.tryKernelProgramming kernels = .ok kernel := by
    unfold Shape.tryWeightBytes at h
    rw [bind_ok] at h
    exact h.imp fun _ => And.left
  obtain ⟨⟨hheight, hwidth⟩, -, rfl⟩ := id (tryKernelProgramming_ok.mp hkernel)
  simp only [backed, Bool.and_eq_true, decide_eq_true_eq] at hheight hwidth
  exact ⟨hkernel, hheight.1, hwidth.1⟩

/-- A plan of a tensor whose position fits is accounted for. -/
theorem accounted_of_tapBitsFit (hplan : plan.Made policy)
    (hbits : plan.shape.precision.elementBits % 8 = 0)
    (htry : plan.shape.tryWeightBytes plan.kernels = .ok bytes) (hfit : plan.shape.TapBitsFit) :
    Accounted plan bytes := by
  have hs := hplan.built.wellFormed
  obtain ⟨hk, hheight, hwidth⟩ := kernel_of_tryWeightBytes htry
  obtain ⟨htotal, hbytes⟩ := (tryWeightBytes_of_tapBitsFit hs hbits hk hfit).mp htry
  have helements := WeightPlan.elementBytes_ok hbits
  have hpacked : plan.packedBytes = .ok bytes := by
    by_cases hdepthwise : plan.shape.depthwise = true
    · rw [WeightPlan.packedBytes_of_depthwise hdepthwise, htry]
    · rw [← hbytes]
      exact WeightPlan.packedBytes_of_dense (Bool.eq_false_of_not_eq_true hdepthwise) hbits
        (storageSize_of_lt hs hbits hdepthwise hheight hwidth htotal)
  have hsized : plan.Sized := by
    refine ⟨hplan.affine, fun hdepthwise length hlength => ?_⟩
    obtain rfl := Except.ok.inj (hpacked.symm.trans hlength)
    rw [← hbytes]
    exact (depthwise_size hs hdepthwise hfit hwidth htotal).2
  obtain ⟨length, hlength⟩ := denseFactors_fit hs hbits hwidth htotal
  refine ⟨hpacked, htry, ?_, length, WeightPlan.denseBytes_ok hbits hlength, fun dense hdense => ?_⟩
  · rw [← hbytes]
    exact weightBytes_of_tapBitsFit hbits hfit htotal
  · subst hdense
    have hzeros : bytes ≤ (List.replicate bytes (0 : UInt8)).length := List.length_replicate.ge
    obtain ⟨out, hout⟩ := select_accepts hplan hbits hfit hheight hwidth hbytes (hbytes ▸ htotal) hlength
      hzeros
    have hpack := WeightPlan.pack_ok.mpr ⟨bytes, _, WeightPlan.denseBytes_ok hbits hlength, hpacked, hzeros,
      helements, hout⟩
    obtain ⟨-, -, fresh, hfresh, hall⟩ := WeightPlan.pack_frame hsized hpack
    refine ⟨fresh, hfresh, fun packed hle => ?_⟩
    rw [WeightPlan.packInto_run, hall packed hle]
    rfl

/-- **The byte counts of a plan agree exactly when the bits of one kernel position fit `u32`.** -/
theorem weight_sizes_agree_iff (hplan : plan.Made policy)
    (hbits : plan.shape.precision.elementBits % 8 = 0)
    (htry : plan.shape.tryWeightBytes plan.kernels = .ok bytes) :
    Accounted plan bytes ↔ plan.shape.TapBitsFit := by
  constructor
  · intro h
    have hs := hplan.built.wellFormed
    obtain ⟨hk, hheight, hwidth⟩ := kernel_of_tryWeightBytes htry
    have hbytes : bytes = plan.kernels.1 * plan.kernels.2 * plan.shape.tapBytes := by
      by_cases hdepthwise : plan.shape.depthwise = true
      · exact ((depthwise_tryWeightBytes hs hdepthwise hk).mp htry).2.symm
      · exact storageSize_eq hs hbits hdepthwise
          (WeightPlan.packedBytes_dense hdepthwise (WeightPlan.elementBytes_ok hbits) h.packedBytes)
    exact tapBitsFit_of_weightBytes hbits (Nat.mul_pos hheight hwidth) (h.weightBytes.trans hbytes)
  · exact accounted_of_tapBitsFit hplan hbits htry

/-- Within the channel ceilings the bits of a position always fit. -/
theorem tapBitsFit_default (hs : s.WellFormed .default) : s.TapBitsFit := by
  have hin := hs.in_backed.resolve_right (by decide)
  have hout := hs.out_backed.resolve_right (by decide)
  have hpos := hs.out_pos
  have hcpa := s.precision.channelsPerAtom_pos
  have hfeature := featureAtoms_eq hs.in_pos
  have hless := ceilDiv_mul_lt s.inChannels hcpa
  rw [← hfeature] at hless
  have hquad : s.cbufAtoms * s.precision.channelsPerAtom ≤
      (s.featureAtoms + 1) * s.precision.channelsPerAtom := Nat.mul_le_mul_right _ (quadAtoms_le _)
  rw [Nat.succ_mul] at hquad
  have hatom : s.precision.channelsPerAtom ≤ 32 := by
    rcases s.precision.channelsPerAtom_cases with h | h | h | h <;> omega
  have hchannels : (if s.precision.sharesFp16Layout then s.cbufAtoms else s.featureAtoms) *
      s.precision.channelsPerAtom ≤ 4200 := by
    split_ifs <;> omega
  have hkernels : (if 16 ≤ s.precision.elementBits then s.outChannels
      else nextMultipleOf s.outChannels 2) ≤ 4200 := by
    have hround := nextMultipleOf_lt s.outChannels (b := 2) (by decide)
    split_ifs <;> omega
  have hbits : s.precision.elementBits ≤ 32 := by
    rcases s.precision.elementBits_cases with h | h | h | h <;> omega
  have htap : s.tapCoefficients ≤ 4200 * 4200 := by
    unfold Shape.tapCoefficients
    split_ifs
    · omega
    all_goals exact Nat.mul_le_mul (by simpa [*] using hchannels) (by simpa [*] using hkernels)
  exact (Nat.mul_le_mul htap hbits).trans_lt (by decide)

/-- The counts of a plan made under the channel ceilings agree. -/
theorem weight_sizes_agree_default (hplan : plan.Made .default)
    (hbits : plan.shape.precision.elementBits % 8 = 0)
    (htry : plan.shape.tryWeightBytes plan.kernels = .ok bytes) : Accounted plan bytes :=
  accounted_of_tapBitsFit hplan hbits htry (tapBitsFit_default hplan.built.wellFormed)

/-! ### A position of `2 ^ 32` bits -/

/-- The policy of the channel-ceiling override. -/
def unbacked : PlanningPolicy := ⟨true, false⟩

/-- A pointwise fp16 convolution of one pixel. -/
def pixel (inChannels outChannels : Nat) : Shape :=
  { width := 1, height := 1, stride := 1, inChannels, outChannels
    precision := .fp16, padding := none, activation := .none, depthwise := false }

/-- The counts of a pointwise layer of eight channels agree. -/
theorem weight_sizes_agree_pixel : Accounted (.forConv (pixel 8 8) (1, 1)) 128 ↔
    (pixel 8 8).TapBitsFit :=
  have hbuilt : (pixel 8 8).Built unbacked := .withPrecision (by decide) (by decide) (by decide)
    (rfl : Shape.tryWithPrecision unbacked 1 1 1 8 8 .fp16 = _)
  weight_sizes_agree_iff (.forConv hbuilt (1, 1)) (by decide) rfl

/-- `2 ^ 28` coefficients are `2 ^ 29` bytes, and the CNA is programmed with none. -/
theorem weight_sizes_disagree : ¬ ∀ (policy : PlanningPolicy) (plan : WeightPlan) (bytes : Nat),
    plan.Made policy → plan.shape.precision.elementBits % 8 = 0 →
    plan.shape.tryWeightBytes plan.kernels = .ok bytes → Accounted plan bytes := by
  intro h
  have hbuilt : (pixel 65536 4096).Built unbacked :=
    .withPrecision (by decide) (by decide) (by decide)
      (rfl : Shape.tryWithPrecision unbacked 1 1 1 65536 4096 .fp16 = _)
  have haccounted := h unbacked (.forConv (pixel 65536 4096) (1, 1)) (2 ^ 29) (.forConv hbuilt _)
    (by decide) rfl
  have hzero : (pixel 65536 4096).weightBytes (1, 1) = 0 := rfl
  have hbytes := haccounted.weightBytes
  exact absurd (hzero.symm.trans hbytes) (by decide)

end

end Weights

end IreeRocket
