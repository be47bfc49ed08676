import IreeRocket.Driver.ChainIdentity
import IreeRocket.Driver.Coefficients
import IreeRocket.Hal.AccumulatorLayout

/-!
# Matmul executables and their output scratch

A matmul executable resolves its runtime dimensions from push constants and is validated by planning
the height-one convolution it lowers to (`resolveShape`). The dispatch arm sizes the output scratch
from the logical channel count in 16-byte atoms, while the convolution is programmed with the count
rounded up to a granule. `output_scratch_covers` says for which channel counts the first covers the
second.
-/

namespace IreeRocket.Driver

open Conv Layout TensorLayout

def PlanErrorCode.description : PlanErrorCode → String
  | .invalidShape => "convolution shape is malformed"
  | .unsupportedSemantics => "convolution semantics are not supported by the Rocket lowering"
  | .hardwareLimit => "convolution exceeds a fixed hardware limit"
  | .capacityExceeded => "no standalone tile fits the CBUF for this shape"
  | .unvalidatedConfiguration => "convolution configuration has no capture or board backing"
  | .internal => "the convolution planner failed internally"

/-- `plan_refusal`. A panic is caught and becomes an internal failure. -/
def planRefusal : Stop → String
  | .refused error => PlanErrorCode.description error.code
  | .panicked _ => PlanErrorCode.description .internal

/-- `map_err(plan_refusal)`. -/
def orRefusal {α : Type} : Planner α → Except String α
  | .ok a => .ok a
  | .error stop => .error (planRefusal stop)

/-- The shape rebuilt by its constructors. -/
def rebuilt (shape : Shape) : Planner Shape := do
  let base ← Shape.tryWithPrecision policy shape.width shape.height shape.stride shape.inChannels
    shape.outChannels shape.precision
  let padded ← match shape.padding with
    | some padding => base.tryWithPadding padding
    | none => .ok base
  let active ← padded.tryWithActivation shape.activation
  if shape.depthwise then active.tryWithDepthwise policy else .ok active

/-- `validate_conv_shape`: rebuilds the shape and trial-plans it. -/
def validateConvShape (shape : Shape) (kernels : Kernels) : Planner Unit := do
  let programmed ← rebuilt shape
  let _ ← ConvPlan.tryNew policy programmed kernels
  return ()

inductive RuntimeMatmulDimension
  | m
  | k
  | n
  deriving DecidableEq, Repr

def RuntimeMatmulDimension.set (shape : Fc.Shape) (value : Nat) : RuntimeMatmulDimension → Fc.Shape
  | m => { shape with m := value }
  | k => { shape with k := value }
  | n => { shape with n := value }

/-- Matmul executable metadata before the runtime dimensions of a dispatch resolve. -/
structure MatmulExecutable where
  shapeTemplate : Fc.Shape
  runtimeDimensions : List RuntimeMatmulDimension
  runtimeDenseReaders : Bool
  runtimeLayout : Bool
  weightsPacked : Bool
  deriving DecidableEq, Repr

/-- `u32::from_ne_bytes` on the little-endian target. -/
def u32FromNeBytes (bytes : Bytes) : Nat := bytes.foldr (fun byte rest => byte.toNat + 256 * rest) 0

/-- `constants.chunks_exact(4)`, the first `count` of them. -/
def chunksExact (constants : Bytes) (count : Nat) : List Bytes :=
  (List.range count).map fun i => load constants (4 * i) 4

/-- One push constant. -/
def setDimension (shape : Fc.Shape) (dimension : RuntimeMatmulDimension × Bytes) :
    Except String Fc.Shape := do
  let value := u32FromNeBytes dimension.2
  unlessErr (value ≠ 0) "runtime matmul dimensions must be nonzero"
  return dimension.1.set shape value

def MatmulExecutable.resolveShape (executable : MatmulExecutable) (constants : Bytes) :
    Except String Fc.Shape := do
  let words := executable.runtimeDimensions.length +
    (if executable.runtimeDenseReaders ∨ executable.runtimeLayout then 1 else 0)
  unlessErr (constants.length = words * 4)
    "runtime matmul push-constant byte count does not match the executable"
  let shape ← (executable.runtimeDimensions.zip (chunksExact constants words)).foldlM setDimension
    executable.shapeTemplate
  let conv ← orRefusal (shape.tryAsConvShape policy)
  orRefusal (validateConvShape conv Fc.kernels)
  return shape

/-- The output scratch the dispatch arm allocates, from the output cube's geometry. -/
def matmulOutputScratch (shape : Fc.Shape) : Except Status Nat := do
  let geometry ← (cubeGeometry .matmul shape.precision.elementBytes shape.m 1 shape.n).mapError
    fun _ => Status.invalidArgument
  let bytes ← (nc1hwc2StorageSize shape.m geometry.bytesPerPixel).mapError
    fun _ => Status.invalidArgument
  unlessErr (bytes < 2 ^ 32) Status.invalidArgument
  return bytes

/-! ### What is accepted -/

theorem mapError_ok {ε ε' α : Type} {f : ε → ε'} {x : Except ε α} {a : α} :
    x.mapError f = .ok a ↔ x = .ok a := by
  cases x <;> simp [Except.mapError]

theorem orRefusal_ok {α : Type} {x : Planner α} {a : α} : orRefusal x = .ok a ↔ x = .ok a := by
  cases x <;> simp [orRefusal]

/-- The convolution a matmul lowers to, where its constructors accept it. -/
def asConvShape (shape : Fc.Shape) : Shape :=
  { width := shape.m, height := 1, stride := 1, inChannels := shape.k, outChannels := shape.n
    precision := shape.precision, padding := some (0, 0), activation := shape.activation
    depthwise := false }

/-- An accepted matmul lowers to it, within the channel ceiling and the address space. -/
theorem resolveShape_ok {executable : MatmulExecutable} {constants : Bytes} {shape : Fc.Shape}
    (h : executable.resolveShape constants = .ok shape) :
    shape.tryAsConvShape policy =
        .ok (asConvShape shape) ∧
      0 < shape.m ∧ shape.m * 16 < 2 ^ 32 ∧ 0 < shape.n ∧ shape.n ≤ 4096 := by
  unfold MatmulExecutable.resolveShape at h
  simp only [bind_ok, orRefusal_ok, pure_ok] at h
  obtain ⟨-, -, resolved, -, conv, hconv, -, -, rfl⟩ := h
  have hshape := hconv
  unfold Fc.Shape.tryAsConvShape at hshape
  simp only [bind_ok] at hshape
  obtain ⟨base, hbase, padded, hpadded, hactive⟩ := hshape
  obtain ⟨hextents, -, hchannels, -, hout, -, -, hsurface, rfl⟩ := Shape.tryWithPrecision_ok hbase
  obtain ⟨-, rfl⟩ := Shape.tryWithPadding_ok hpadded
  obtain ⟨-, rfl⟩ := Shape.tryWithActivation_ok hactive
  refine ⟨hconv, hextents.1, by omega, hchannels.2, ?_⟩
  rcases hout with hout | hout
  · exact hout
  · cases hout

/-! ### The two sizes -/

/-- The last granule of the channels reaches into its last 16-byte atom. -/
def FillsGranule (precision : Precision) (n : Nat) : Prop :=
  let granule := precision.outChannelGranule
  let elementBytes := precision.outputElementBytes
  n % granule = 0 ∨ granule * elementBytes < n % granule * elementBytes + 16

instance (precision : Precision) (n : Nat) : Decidable (FillsGranule precision n) :=
  inferInstanceAs (Decidable (_ ∨ _))

/-- Rounding to atoms reaches the granule's end exactly when the last granule fills its last atom. -/
theorem atoms_cover_iff (precision : Precision) (n : Nat) :
    (nextMultipleOf n precision.outChannelGranule * precision.outputElementBytes) ⌈/⌉ 16 ≤
        (n * precision.outputElementBytes) ⌈/⌉ 16 ↔ FillsGranule precision n := by
  unfold nextMultipleOf FillsGranule
  simp only [Nat.ceilDiv_eq_add_pred_div]
  cases precision <;>
    simp only [Precision.outChannelGranule, Precision.outputElementBytes, Precision.channelsPerAtom,
      Precision.elementBits, featureAtomBytes, Nat.reduceMul, Nat.reduceDiv] <;>
    omega

theorem outChannelGranule_pos (precision : Precision) :
    0 < precision.outChannelGranule ∧ precision.outChannelGranule ≤ 64 := by
  cases precision <;>
    simp [Precision.outChannelGranule, Precision.channelsPerAtom, Precision.elementBits,
      featureAtomBytes]

/-- Under the channel ceiling the programmed count is the rounded one. -/
theorem paddedOutChannels_eq {s : Shape} (hdense : s.depthwise = false) (hpos : 0 < s.outChannels)
    (hle : s.outChannels ≤ 4096) :
    s.paddedOutChannels = nextMultipleOf s.outChannels s.precision.outChannelGranule := by
  obtain ⟨hgranule, hsmall⟩ := outChannelGranule_pos s.precision
  have hlt := nextMultipleOf_lt s.outChannels hgranule
  have hone : s.precision.outChannelGranule ≤
      nextMultipleOf s.outChannels s.precision.outChannelGranule :=
    Nat.le_mul_of_pos_left _ (ceilDiv_pos hpos hgranule)
  unfold Shape.paddedOutChannels Shape.outChannelGranule
  simp only [hdense, Bool.false_eq_true, if_false]
  rw [wrap32_of_lt (by omega), max_eq_left hone]

/-- The scratch of a height-one 1x1 convolution. -/
theorem outputScratchBytes_matmul (shape : Fc.Shape) (hm : 0 < shape.m) (hn : 0 < shape.n)
    (hle : shape.n ≤ 4096) :
    (asConvShape shape).outputScratchBytes Fc.kernels =
      shape.m * ((nextMultipleOf shape.n shape.precision.outChannelGranule *
        shape.precision.outputElementBytes) ⌈/⌉ 16) * 16 := by
  have hwidth : shape.m - 1 + 1 = shape.m := by omega
  have hpadded := paddedOutChannels_eq (s := asConvShape shape) rfl hn hle
  unfold Shape.outputScratchBytes Shape.outputAtomBytes Hal.outputChannelBlockBytes
  rw [hpadded]
  simp only [asConvShape, Bool.false_eq_true, and_false, false_and, if_false,
    Shape.outputWidth, Shape.outputHeight, Shape.kernelProgramming, kernelProgramming, Fc.kernels,
    Option.getD_some, Nat.mul_zero, Nat.add_zero, Nat.div_one, featureAtomBytes, hwidth, Nat.sub_self,
    Nat.zero_add, Nat.mul_one]

/-- The scratch sized from the logical channel count. -/
theorem nc1hwc2StorageSize_matmul {pixels bytesPerPixel : Nat} (hbytes : 0 < bytesPerPixel)
    (hle : bytesPerPixel ≤ 2 ^ 16) (hpixels : pixels * 16 < 2 ^ 32) :
    nc1hwc2StorageSize pixels bytesPerPixel = .ok (pixels * (bytesPerPixel ⌈/⌉ 16) * 16) := by
  have hcount : bytesPerPixel ⌈/⌉ 16 ≤ 2 ^ 12 := (ceilDiv_le_iff_le_mul (by decide)).mpr hle
  have hfirst : pixels * (bytesPerPixel ⌈/⌉ featureAtomicBytes) ≤ 2 ^ 28 * 2 ^ 12 :=
    Nat.mul_le_mul (by omega) hcount
  unfold nc1hwc2StorageSize
  simp only [bind_ok, unlessErr_ok, exists_const, okOr_ok]
  refine ⟨by omega, ?_⟩
  simp only [checkedProduct, Option.bind_eq_some_iff, checkedMul_some]
  refine ⟨_, ⟨by omega, rfl⟩, _, ⟨?_, rfl⟩, rfl⟩
  unfold featureAtomicBytes at *
  omega

theorem outputElementBytes_bounds (precision : Precision) :
    0 < precision.outputElementBytes ∧ precision.outputElementBytes ≤ 4 := by
  cases precision <;> simp [Precision.outputElementBytes]

/-- **When the matmul's output scratch covers its program.** For every accepted matmul, the scratch
sized from the logical channel count is at least the bytes of the programmed channel count exactly
when the last granule of channels reaches into its last 16-byte atom. It is the scratch the dispatch
arm allocates at every precision whose results are as wide as its operands. -/
theorem output_scratch_covers {executable : MatmulExecutable} {constants : Bytes} {shape : Fc.Shape}
    (h : executable.resolveShape constants = .ok shape) :
    ∃ conv bytes, shape.tryAsConvShape policy = .ok conv ∧
      nc1hwc2StorageSize shape.m (shape.n * shape.precision.outputElementBytes) = .ok bytes ∧
      (shape.precision.elementBytes = shape.precision.outputElementBytes →
        ∀ allocated, matmulOutputScratch shape = .ok allocated → allocated = bytes) ∧
      (conv.outputScratchBytes Fc.kernels ≤ bytes ↔ FillsGranule shape.precision shape.n) := by
  obtain ⟨hconv, hm, hsurface, hn, hle⟩ := resolveShape_ok h
  obtain ⟨hbytes, hsmall⟩ := outputElementBytes_bounds shape.precision
  have hpixel : shape.n * shape.precision.outputElementBytes ≤ 4096 * 4 := Nat.mul_le_mul hle hsmall
  have hstorage := nc1hwc2StorageSize_matmul (Nat.mul_pos hn hbytes) (by omega) hsurface
  refine ⟨_, _, hconv, hstorage, ?_, ?_⟩
  · intro hwidth allocated hallocated
    unfold matmulOutputScratch at hallocated
    simp only [bind_ok, mapError_ok, unlessErr_ok, pure_ok, exists_const] at hallocated
    obtain ⟨geometry, hgeometry, bytes, hsize, -, rfl⟩ := hallocated
    obtain ⟨-, -, -, -, hpixelBytes, -⟩ := cubeGeometry_ok hgeometry
    rw [hpixelBytes, hwidth, hstorage] at hsize
    exact (Except.ok.inj hsize).symm
  · rw [outputScratchBytes_matmul shape hm hn hle, ← atoms_cover_iff]
    constructor
    · intro hcovers
      exact Nat.le_of_mul_le_mul_left (Nat.le_of_mul_le_mul_right hcovers (by decide)) hm
    · intro hcovers
      exact Nat.mul_le_mul_right _ (Nat.mul_le_mul_left _ hcovers)

/-- A static fp16 matmul of one row. -/
def rowMatmul (n : Nat) : MatmulExecutable :=
  { shapeTemplate := { m := 1, k := 16, n, precision := .fp16, activation := .none }
    runtimeDimensions := []
    runtimeDenseReaders := false
    runtimeLayout := false
    weightsPacked := false }

theorem rowMatmul_resolves :
    (rowMatmul 16).resolveShape [] = .ok (rowMatmul 16).shapeTemplate ∧
      (rowMatmul 8).resolveShape [] = .ok (rowMatmul 8).shapeTemplate := by
  decide +kernel

theorem output_scratch_covers_sixteen : ∃ conv bytes,
    (rowMatmul 16).shapeTemplate.tryAsConvShape policy = .ok conv ∧
      nc1hwc2StorageSize 1 32 = .ok bytes ∧ conv.outputScratchBytes Fc.kernels ≤ bytes := by
  obtain ⟨conv, bytes, hconv, hstorage, -, hcovers⟩ := output_scratch_covers rowMatmul_resolves.1
  exact ⟨conv, bytes, hconv, hstorage, hcovers.mpr (by decide)⟩

/-- **Eight fp16 channels overrun.** One atom a pixel is allocated, and the program writes two. -/
theorem eight_channels_overrun : ¬ ∀ (executable : MatmulExecutable) (constants : Bytes)
    (shape : Fc.Shape), executable.resolveShape constants = .ok shape →
    ∃ conv bytes, shape.tryAsConvShape policy = .ok conv ∧
      nc1hwc2StorageSize shape.m (shape.n * shape.precision.outputElementBytes) = .ok bytes ∧
      conv.outputScratchBytes Fc.kernels ≤ bytes := by
  intro h
  obtain ⟨conv, bytes, hconv, hstorage, hcovers⟩ := h _ _ _ rowMatmul_resolves.2
  obtain rfl := Except.ok.inj (hconv.symm.trans (resolveShape_ok rowMatmul_resolves.2).1)
  obtain rfl := Except.ok.inj (hstorage.symm.trans (show nc1hwc2StorageSize 1 16 = .ok 16 from rfl))
  exact absurd hcovers (by decide)

end IreeRocket.Driver
