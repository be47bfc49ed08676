import IreeRocket.Core.Shape

/-!
# The geometry of a shape

Channel padding, the feature layout, the output extents and the row strides, each as the source
computes it from a `Shape` and a kernel, followed by the bounds that hold on well-formed shapes.
-/

namespace IreeRocket.Conv

namespace Shape

def outChannelGranule (s : Shape) : Nat :=
  let dense := s.precision.outChannelGranule
  if s.depthwise then 2 * dense else dense

def kernelProgramming (s : Shape) (kernels : Kernels) : KernelProgramming :=
  Conv.kernelProgramming kernels s.padding

def tryKernelProgramming (s : Shape) (kernels : Kernels) : Planner KernelProgramming :=
  Conv.tryKernelProgramming kernels s.padding

def checkExtentsAgainst (s : Shape) (kernel : KernelProgramming) : Planner Unit := do
  let kernelWidth := kernel.width
  let paddedWidth := s.width + 2 * kernel.padLeft
  refuseUnless (kernel.width ≤ paddedWidth) .invalidShape
    s!"kernel width {kernelWidth} exceeds the padded input width {paddedWidth}"
  let kernelHeight := kernel.height
  let paddedHeight := s.height + 2 * kernel.padTop
  refuseUnless (kernel.height ≤ paddedHeight) .invalidShape
    s!"kernel height {kernelHeight} exceeds the padded input height {paddedHeight}"

/-! ### Channels -/

def featureAtoms (s : Shape) : Nat :=
  max (s.inChannels ⌈/⌉ s.precision.channelsPerAtom) 1

/-- Wraps for channel counts near `2 ^ 32`, which only the unbacked-channel policy lets through;
the same holds of the other channel products below. -/
def paddedChannels (s : Shape) : Nat :=
  wrap32 (s.featureAtoms * s.precision.channelsPerAtom)

def weightChannels (s : Shape) : Nat :=
  if s.precision.sharesFp16Layout then
    wrap32 (quadAtoms s.featureAtoms * s.precision.channelsPerAtom)
  else s.paddedChannels

def programmedKernels (s : Shape) : Nat :=
  if s.depthwise then 1
  else if 16 ≤ s.precision.elementBits then s.outChannels
  else wrap32 (nextMultipleOf s.outChannels 2)

def paddedOutChannels (s : Shape) : Nat :=
  max (wrap32 (nextMultipleOf s.outChannels s.outChannelGranule)) s.outChannelGranule

/-- `cbuf_atoms`: the atoms the CBUF bills. -/
def cbufAtoms (s : Shape) : Nat := quadAtoms s.featureAtoms

def depthwisePaddedChannels (s : Shape) : Nat :=
  wrap32 (s.cbufAtoms * s.precision.channelsPerAtom)

/-- Bytes of the coefficient tensor, by `u64` arithmetic, refused past `u32`. -/
def tryWeightBytes (s : Shape) (kernels : Kernels) : Planner Nat := do
  let kernel ← s.tryKernelProgramming kernels
  let elements :=
    if s.depthwise then s.cbufAtoms * s.precision.channelsPerAtom
    else s.weightChannels * s.programmedKernels
  let bytes := wrap64 (wrap64 (wrap64 (elements * s.precision.elementBits) / 8 * kernel.height) *
    kernel.width)
  let precision := s.precision.debug
  let height := kernels.1
  let width := kernels.2
  refuseUnless (bytes < 2 ^ 32) .hardwareLimit
    s!"coefficient tensor of {bytes} bytes ({precision} kernel [{height}, {width}]) exceeds the 32-bit byte counts the CNA is programmed with"
  return bytes

/-- Bytes of the coefficient tensor, by `u32` arithmetic. -/
def weightBytes (s : Shape) (kernels : Kernels) : Nat :=
  let kernel := s.kernelProgramming kernels
  if s.depthwise then
    wrap32 (kernel.height * kernel.width *
      s.precision.bytesFor (wrap32 (s.cbufAtoms * s.precision.channelsPerAtom)))
  else
    wrap32 (kernel.height * kernel.width *
      s.precision.bytesFor (wrap32 (s.weightChannels * s.programmedKernels)))

/-! ### Layout and extents -/

def layout (s : Shape) : FeatureLayout :=
  if s.inChannels ≤ maxDenseChannels then .dense else .surfaces

/-- The source asserts that the kernel fits the padded extent; `checkExtentsAgainst` has refused
every other kernel before the planner asks. -/
def outputWidth (s : Shape) (kernels : Kernels) : Nat :=
  let kernel := s.kernelProgramming kernels
  (s.width + 2 * kernel.padLeft - kernel.width) / s.stride + 1

def outputHeight (s : Shape) (kernels : Kernels) : Nat :=
  let kernel := s.kernelProgramming kernels
  (s.height + 2 * kernel.padTop - kernel.height) / s.stride + 1

def inputRowStride (s : Shape) : Nat :=
  match s.layout with
  | .dense => s.width * s.inChannels * s.precision.elementBytes
  | .surfaces => s.width * featureAtomBytes

def cbufInputWidth (s : Shape) (inputWidth : Nat) : Nat :=
  match s.layout with
  | .dense => nextMultipleOf inputWidth s.precision.channelsPerAtom
  | .surfaces => inputWidth

/-- `in_channels.next_power_of_two().min(4)`. -/
def storedChannels (s : Shape) : Nat :=
  if s.inChannels ≤ 1 then 1 else if s.inChannels ≤ 2 then 2 else 4

def denseCbufPixelBytes (s : Shape) : Nat := s.storedChannels * s.precision.elementBytes

/-- Whether a tile may begin at this input row: its byte offset is a whole feature atom. -/
def denseFeatureOffsetSafe (s : Shape) (inFirst : Nat) : Bool :=
  match s.layout with
  | .dense => inFirst * s.inputRowStride % featureAtomBytes == 0
  | .surfaces => true

def tileInFirst (s : Shape) (kernels : Kernels) (outFirst : Nat) : Nat :=
  outFirst * s.stride - (s.kernelProgramming kernels).padTop

end Shape

/-! ### What the two kernel checks leave -/

/-- A kernel the planner has accepted for a shape: both extents backed, each leading padding
smaller than its extent, and the kernel no larger than the padded input. -/
structure KernelFits (s : Shape) (kernels : Kernels) : Prop where
  height_pos : 0 < kernels.1
  height_le : kernels.1 ≤ 11
  width_pos : 0 < kernels.2
  width_le : kernels.2 ≤ 11
  padTop_lt : (s.kernelProgramming kernels).padTop < kernels.1
  padLeft_lt : (s.kernelProgramming kernels).padLeft < kernels.2
  height_fits : kernels.1 ≤ s.height + 2 * (s.kernelProgramming kernels).padTop
  width_fits : kernels.2 ≤ s.width + 2 * (s.kernelProgramming kernels).padLeft

@[simp] theorem kernelProgramming_height (s : Shape) (kernels : Kernels) :
    (s.kernelProgramming kernels).height = kernels.1 := rfl

@[simp] theorem kernelProgramming_width (s : Shape) (kernels : Kernels) :
    (s.kernelProgramming kernels).width = kernels.2 := rfl

theorem tryKernelProgramming_ok {s : Shape} {kernels : Kernels} {kernel : KernelProgramming} :
    s.tryKernelProgramming kernels = .ok kernel ↔
      (backed kernels.1 ∧ backed kernels.2) ∧
      ((s.kernelProgramming kernels).padTop < kernels.1 ∧
        (s.kernelProgramming kernels).padLeft < kernels.2) ∧
      s.kernelProgramming kernels = kernel := by
  unfold Shape.tryKernelProgramming tryKernelProgramming
  simp only [bind_ok, refuseUnless_ok, pure_ok, exists_const]
  rfl

theorem checkExtentsAgainst_ok {s : Shape} {kernel : KernelProgramming} {u : Unit} :
    s.checkExtentsAgainst kernel = .ok u ↔
      kernel.width ≤ s.width + 2 * kernel.padLeft ∧ kernel.height ≤ s.height + 2 * kernel.padTop := by
  unfold Shape.checkExtentsAgainst
  simp only [bind_ok, refuseUnless_ok, exists_const]

/-- The two checks at the head of every planning entry. -/
theorem kernelFits_of_checks {s : Shape} {kernels : Kernels} {kernel : KernelProgramming} {u : Unit}
    (hk : s.tryKernelProgramming kernels = .ok kernel) (hx : s.checkExtentsAgainst kernel = .ok u) :
    KernelFits s kernels ∧ kernel = s.kernelProgramming kernels := by
  obtain ⟨⟨hh, hw⟩, ⟨ht, hl⟩, rfl⟩ := tryKernelProgramming_ok.mp hk
  obtain ⟨hx, hy⟩ := checkExtentsAgainst_ok.mp hx
  simp only [backed, Bool.and_eq_true, decide_eq_true_eq] at hh hw
  exact ⟨⟨hh.1, hh.2, hw.1, hw.2, ht, hl, hy, hx⟩, rfl⟩

/-- Such a kernel passes both checks. -/
theorem KernelFits.tryKernelProgramming {s : Shape} {kernels : Kernels} (h : KernelFits s kernels) :
    s.tryKernelProgramming kernels = .ok (s.kernelProgramming kernels) := by
  rw [tryKernelProgramming_ok]
  refine ⟨⟨?_, ?_⟩, ⟨h.padTop_lt, h.padLeft_lt⟩, rfl⟩
  · simpa [backed] using ⟨h.height_pos, h.height_le⟩
  · simpa [backed] using ⟨h.width_pos, h.width_le⟩

theorem KernelFits.checkExtentsAgainst {s : Shape} {kernels : Kernels} (h : KernelFits s kernels) :
    s.checkExtentsAgainst (s.kernelProgramming kernels) = .ok () :=
  checkExtentsAgainst_ok.mpr ⟨h.width_fits, h.height_fits⟩

/-! ### Bounds on well-formed shapes -/

namespace Shape

variable {policy : PlanningPolicy} {s : Shape}

theorem featureAtoms_pos (s : Shape) : 0 < s.featureAtoms := by
  unfold featureAtoms
  omega

theorem cbufAtoms_pos (s : Shape) : 0 < s.cbufAtoms :=
  s.featureAtoms_pos.trans_le (le_quadAtoms _)

theorem outputHeight_pos (s : Shape) (kernels : Kernels) : 0 < s.outputHeight kernels :=
  Nat.succ_pos _

theorem outputWidth_pos (s : Shape) (kernels : Kernels) : 0 < s.outputWidth kernels :=
  Nat.succ_pos _

theorem WellFormed.width_lt (h : s.WellFormed policy) : s.width < 2 ^ 28 := by
  have := h.surface
  have := Nat.le_mul_of_pos_right s.width h.height_pos
  omega

theorem WellFormed.height_lt (h : s.WellFormed policy) : s.height < 2 ^ 28 := by
  have := h.surface
  have := Nat.le_mul_of_pos_left s.height h.width_pos
  omega

/-- The first tap of the last output row is inside the padded image. -/
theorem outFirst_mul_stride_le (s : Shape) (kernels : Kernels) {outFirst : Nat} (h : outFirst < s.outputHeight kernels) :
    outFirst * s.stride + kernels.1 ≤ max kernels.1
      (s.height + 2 * (s.kernelProgramming kernels).padTop) := by
  unfold outputHeight at h
  simp only [kernelProgramming_height] at h
  have h1 := Nat.mul_le_mul_right s.stride (Nat.lt_succ_iff.mp h)
  have h2 := Nat.div_mul_le_self
    (s.height + 2 * (s.kernelProgramming kernels).padTop - kernels.1) s.stride
  omega

theorem outFirst_mul_stride_le' (s : Shape) (kernels : Kernels) {outFirst : Nat} (h : outFirst < s.outputWidth kernels) :
    outFirst * s.stride + kernels.2 ≤ max kernels.2
      (s.width + 2 * (s.kernelProgramming kernels).padLeft) := by
  unfold outputWidth at h
  simp only [kernelProgramming_width] at h
  have h1 := Nat.mul_le_mul_right s.stride (Nat.lt_succ_iff.mp h)
  have h2 := Nat.div_mul_le_self
    (s.width + 2 * (s.kernelProgramming kernels).padLeft - kernels.2) s.stride
  omega

theorem storedChannels_le (s : Shape) : s.storedChannels ≤ 4 := by
  unfold storedChannels
  split_ifs <;> omega

theorem storedChannels_pos (s : Shape) : 0 < s.storedChannels := by
  unfold storedChannels
  split_ifs <;> omega

theorem denseCbufPixelBytes_le (s : Shape) : s.denseCbufPixelBytes ≤ 16 :=
  Nat.mul_le_mul s.storedChannels_le s.precision.elementBytes_le

theorem le_cbufInputWidth (s : Shape) (inputWidth : Nat) : inputWidth ≤ s.cbufInputWidth inputWidth := by
  unfold cbufInputWidth
  cases s.layout with
  | dense => exact le_nextMultipleOf _ s.precision.channelsPerAtom_pos
  | surfaces => exact le_refl _

end Shape

end IreeRocket.Conv
