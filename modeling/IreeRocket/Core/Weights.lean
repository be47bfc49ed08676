import IreeRocket.Core.Admission

/-!
# Coefficient packing

The blocked coefficient layout of the CNA and the packers that fill it from a logical filter.
`WeightPlan` selects the packer: tap-major for depthwise, the affine int8 packer where the precision
carries a zero point, the plain one otherwise.

A packer writes into a destination it is given. It is modelled as a function that takes the
destination's bytes and returns the count it filled with the bytes afterwards.
-/

namespace IreeRocket

abbrev Bytes := List UInt8

/-- `usize::checked_mul`. -/
def checkedMul (a b : Nat) : Option Nat := if a * b < 2 ^ 64 then some (a * b) else none

/-- `checked_mul` over a list of factors, from the left. -/
def checkedProduct : Nat → List Nat → Option Nat
  | a, [] => some a
  | a, b :: factors => (checkedMul a b).bind fun product => checkedProduct product factors

/-- `packed[offset..offset + bytes.len()].copy_from_slice(bytes)`. The source panics where the range
leaves `packed`; here the bytes outside are dropped. -/
def store (packed : Bytes) (offset : Nat) (bytes : Bytes) : Bytes :=
  packed.mapIdx fun index byte => if offset ≤ index then bytes.getD (index - offset) byte else byte

/-- `dense[offset..offset + length]`. -/
def load (dense : Bytes) (offset length : Nat) : Bytes := (dense.drop offset).take length

/-- `packed[..length].fill(0)`. -/
def zeroed (packed : Bytes) (length : Nat) : Bytes :=
  List.replicate length 0 ++ packed.drop length

/-! ### Checked arithmetic -/

theorem checkedProduct_some {a p : Nat} {factors : List Nat}
    (h : checkedProduct a factors = some p) : p = a * factors.prod := by
  induction factors generalizing a with
  | nil => simpa [checkedProduct] using h.symm
  | cons b factors ih =>
    simp only [checkedProduct, Option.bind_eq_some_iff] at h
    obtain ⟨product, hproduct, h⟩ := h
    unfold checkedMul at hproduct
    split_ifs at hproduct
    obtain rfl := Option.some.inj hproduct
    rw [ih h, List.prod_cons, Nat.mul_assoc]

theorem checkedProduct_append (a b : Nat) (factors : List Nat) :
    checkedProduct a (factors ++ [b]) =
      (checkedProduct a factors).bind fun product => checkedMul product b := by
  induction factors generalizing a with
  | nil => simp [checkedProduct]
  | cons c factors ih =>
    simp only [List.cons_append, checkedProduct, Option.bind_assoc]
    congr 1
    funext product
    exact ih product

theorem length_store (packed : Bytes) (offset : Nat) (bytes : Bytes) :
    (store packed offset bytes).length = packed.length := List.length_mapIdx

/-- Inside the range of a store the stored bytes are found. -/
theorem getElem?_store_mem {packed bytes : Bytes} {offset k : Nat} (hk : k < packed.length)
    (hlow : offset ≤ k) (hhigh : k < offset + bytes.length) :
    (store packed offset bytes)[k]? = bytes[k - offset]? := by
  have hinside : k - offset < bytes.length := by omega
  simp [store, hk, hlow, List.getD_eq_getElem?_getD, hinside]

/-- Outside it nothing changes. -/
theorem getElem?_store_not_mem {packed bytes : Bytes} {offset k : Nat}
    (hk : k < offset ∨ offset + bytes.length ≤ k) :
    (store packed offset bytes)[k]? = packed[k]? := by
  unfold store
  rw [List.getElem?_mapIdx]
  rcases hk with hlow | hhigh
  · simp [Nat.not_le.mpr hlow]
  · have houtside : bytes.length ≤ k - offset := by omega
    simp [List.getD_eq_getElem?_getD, houtside]

theorem getElem?_load {dense : Bytes} {offset length i : Nat} (hi : i < length) :
    (load dense offset length)[i]? = dense[offset + i]? := by
  simp [load, hi]

theorem length_load {dense : Bytes} {offset length : Nat} (h : offset + length ≤ dense.length) :
    (load dense offset length).length = length := by
  simp only [load, List.length_take, List.length_drop]
  omega

theorem length_zeroed {packed : Bytes} {length : Nat} (h : length ≤ packed.length) :
    (zeroed packed length).length = packed.length := by
  simp [zeroed, h]

/-- A fold whose steps keep the length keeps it. -/
theorem length_foldl {α β : Type} {f : List α → β → List α}
    (hf : ∀ packed b, (f packed b).length = packed.length) (visits : List β) (packed : List α) :
    (visits.foldl f packed).length = packed.length := by
  induction visits generalizing packed with
  | nil => rfl
  | cons b visits ih => rw [List.foldl_cons, ih, hf]

namespace Weights

open Conv

def weightAtomicBytes : Nat := 32
def weightInputGroupChannels : Nat := 32
def tf32WeightInputGroupChannels : Nat := 16
def tf32WeightOutputBlockChannels : Nat := 16
/-- Physical byte width of one depthwise coefficient group. -/
def depthwiseGroupBytes : Nat := 64

/-- The blocked coefficient order's dimensions. -/
structure WeightLayout where
  outputBlockChannels : Nat
  inputGroupChannels : Nat
  paddedInputChannels : Nat
  programmedOutputChannels : Nat
  inputGroups : Nat
  outputBlocks : Nat
  deriving DecidableEq, Repr

namespace WeightLayout

def new (inputChannels outputChannels elementBits : Nat) : Except String WeightLayout := do
  unlessErr (inputChannels ≠ 0 ∧ outputChannels ≠ 0 ∧ elementBits ∈ [4, 8, 16, 32])
    "invalid Rocket convolution filter shape"
  let channelsPerAtom := featureAtomBytes * 8 / elementBits
  let inputAtoms := inputChannels ⌈/⌉ channelsPerAtom
  let paddedInputAtoms :=
    if elementBits = 16 ∧ inputAtoms % 4 = 3 then inputAtoms + 1 else inputAtoms
  let paddedInputChannels := paddedInputAtoms * channelsPerAtom
  let programmedOutputChannels :=
    if elementBits < 16 then nextMultipleOf outputChannels 2 else outputChannels
  let (outputBlockChannels, inputGroupChannels) :=
    if elementBits = 32 then (tf32WeightOutputBlockChannels, tf32WeightInputGroupChannels)
    else (weightAtomicBytes * 8 / elementBits, weightInputGroupChannels)
  return { outputBlockChannels, inputGroupChannels, paddedInputChannels, programmedOutputChannels
           inputGroups := paddedInputChannels ⌈/⌉ inputGroupChannels
           outputBlocks := programmedOutputChannels ⌈/⌉ outputBlockChannels }

/-- What `visit_slots` visits, in order: a slot's number is its index. A slot carries the logical
HWCF element it holds, `none` where the filter does not reach, and its output channel. -/
def slots (layout : WeightLayout) (filterHeight filterWidth inputChannels outputChannels : Nat) :
    List (Option Nat × Nat) :=
  (List.range layout.outputBlocks).flatMap fun outputBlock =>
    (List.range layout.inputGroups).flatMap fun inputGroup =>
      (List.range filterHeight).flatMap fun filterY =>
        (List.range filterWidth).flatMap fun filterX =>
          (List.range layout.outputBlockChannels).flatMap fun outputLane =>
            let outputChannel := outputBlock * layout.outputBlockChannels + outputLane
            if outputChannel ≥ layout.programmedOutputChannels then []
            else (List.range layout.inputGroupChannels).filterMap fun inputLane =>
              let inputChannel := inputGroup * layout.inputGroupChannels + inputLane
              if inputChannel ≥ layout.paddedInputChannels then none
              else
                let source :=
                  if outputChannel < outputChannels ∧ inputChannel < inputChannels then
                    some (((filterY * filterWidth + filterX) * inputChannels + inputChannel) *
                      outputChannels + outputChannel)
                  else none
                some (source, outputChannel)

end WeightLayout

def rocketWeightStorageSizeBits (filterHeight filterWidth inputChannels outputChannels
    elementBits : Nat) : Except String Nat := do
  let layout ← WeightLayout.new inputChannels outputChannels elementBits
  unlessErr (filterHeight ≠ 0 ∧ filterWidth ≠ 0) "invalid Rocket convolution filter shape"
  let bits ← okOr (checkedProduct filterHeight
      [filterWidth, layout.paddedInputChannels, layout.programmedOutputChannels, elementBits])
    "Rocket convolution filter storage size overflows usize"
  return bits / 8

def rocketWeightStorageSize (filterHeight filterWidth inputChannels outputChannels
    elementSize : Nat) : Except String Nat := do
  unlessErr (elementSize ∈ [1, 2, 4]) "invalid Rocket convolution filter shape"
  rocketWeightStorageSizeBits filterHeight filterWidth inputChannels outputChannels
    (elementSize * 8)

/-- What the packer stores for one visited slot. -/
def storeSlot (dense : Bytes) (outputChannels elementSize : Nat) (zeroPoints : Option (List Int8))
    (packed : Bytes) (visit : (Option Nat × Nat) × Nat) : Bytes :=
  let ((source, outputChannel), slot) := visit
  match source with
  | some source => store packed (slot * elementSize) (load dense (source * elementSize) elementSize)
  | none =>
    match zeroPoints with
    | none => packed
    | some zeroPoints =>
      if outputChannel < outputChannels then
        packed.set (slot * elementSize) (zeroPoints.getD outputChannel 0).toUInt8
      else packed

def packHwcfToRocketWeightsImpl (dense : Bytes) (filterHeight filterWidth inputChannels
    outputChannels paddedOutputChannels elementSize : Nat) (zeroPoints : Option (List Int8))
    (packed : Bytes) : Except String (Nat × Bytes) := do
  unlessErr (outputChannels ≤ paddedOutputChannels)
    "padded output channel count is smaller than the logical one"
  let denseLen ← okOr (checkedProduct filterHeight
      [filterWidth, inputChannels, outputChannels, elementSize])
    "dense HWCF storage size overflows usize"
  unlessErr (denseLen ≤ dense.length) "dense HWCF filter is smaller than its declared shape"
  let packedLen ← rocketWeightStorageSize filterHeight filterWidth inputChannels
    paddedOutputChannels elementSize
  unlessErr (packedLen ≤ packed.length)
    "Rocket weight destination is smaller than its declared shape"
  let layout ← WeightLayout.new inputChannels paddedOutputChannels (elementSize * 8)
  let visits := (layout.slots filterHeight filterWidth inputChannels outputChannels).zipIdx
  return (packedLen, visits.foldl (storeSlot dense outputChannels elementSize zeroPoints)
    (zeroed packed packedLen))

def packHwcfToRocketWeights (dense : Bytes) (filterHeight filterWidth inputChannels outputChannels
    elementSize : Nat) (packed : Bytes) : Except String (Nat × Bytes) :=
  packHwcfToRocketWeightsImpl dense filterHeight filterWidth inputChannels outputChannels
    outputChannels elementSize none packed

def packHwcfToRocketWeightsPadded (dense : Bytes) (filterHeight filterWidth inputChannels
    outputChannels paddedOutputChannels elementSize : Nat) (packed : Bytes) :
    Except String (Nat × Bytes) :=
  packHwcfToRocketWeightsImpl dense filterHeight filterWidth inputChannels outputChannels
    paddedOutputChannels elementSize none packed

def packHwcfToRocketWeightsAffineI8 (dense : Bytes) (filterHeight filterWidth inputChannels
    outputChannels : Nat) (zeroPoints : List Int8) (packed : Bytes) :
    Except String (Nat × Bytes) := do
  unlessErr (zeroPoints.length = outputChannels)
    "int8 weight zero-point count does not match output channels"
  packHwcfToRocketWeightsImpl dense filterHeight filterWidth inputChannels outputChannels
    outputChannels 1 (some zeroPoints) packed

/-- The coefficients of one depthwise channel, with the slots they go to: tap-major within the
channel's group. -/
def depthwiseSlots (filterHeight filterWidth channels paddedChannels elementSize : Nat) :
    List (Nat × Nat) :=
  let groupChannels := depthwiseGroupBytes / elementSize
  let fullGroups := paddedChannels / groupChannels
  let tailWidth := paddedChannels - fullGroups * groupChannels
  (List.range channels).flatMap fun channel =>
    let group := channel / groupChannels
    let channelInGroup := channel % groupChannels
    let groupWidth := if group < fullGroups then groupChannels else tailWidth
    let groupBase := group * filterHeight * filterWidth * groupChannels
    (List.range filterHeight).flatMap fun ky =>
      (List.range filterWidth).map fun kx =>
        ((channel * filterHeight + ky) * filterWidth + kx,
          groupBase + (ky * filterWidth + kx) * groupWidth + channelInGroup)

def packDepthwiseToRocketWeights (dense : Bytes) (filterHeight filterWidth channels paddedChannels
    elementSize : Nat) (packed : Bytes) : Except String (Nat × Bytes) := do
  unlessErr (filterHeight ≠ 0 ∧ filterWidth ≠ 0 ∧ channels ≠ 0 ∧ channels ≤ paddedChannels ∧
      elementSize ∈ [1, 2])
    "invalid Rocket depthwise filter shape"
  let denseLen ← okOr (checkedProduct filterHeight [filterWidth, channels, elementSize])
    "depthwise filter storage size overflows usize"
  unlessErr (denseLen ≤ dense.length) "dense depthwise filter is smaller than its declared shape"
  let packedLen ← okOr (checkedProduct filterHeight [filterWidth, paddedChannels, elementSize])
    "packed depthwise filter storage size overflows usize"
  unlessErr (packedLen ≤ packed.length) "packed depthwise filter buffer is too small"
  let copies := depthwiseSlots filterHeight filterWidth channels paddedChannels elementSize
  return (packedLen, copies.foldl (fun packed copy =>
    store packed (copy.2 * elementSize) (load dense (copy.1 * elementSize) elementSize))
    (zeroed packed packedLen))

/-- One coefficient tensor as a dispatch programs it. -/
structure WeightPlan where
  shape : Shape
  kernels : Kernels
  weightZeroPoint : Option Int8
  deriving DecidableEq

/-- `.map_err(|reason| PlanError::new(PlanErrorCode::InvalidShape, reason))`. -/
def invalidShape {α : Type} : Except String α → Planner α
  | .ok value => .ok value
  | .error reason => .error (.refused ⟨.invalidShape, reason⟩)

namespace WeightPlan

/-- `quantization().map(|q| q.weight_zero_point as i8)`. -/
def zeroPoint (precision : Precision) : Option Int8 :=
  precision.quantization.map fun q => Int8.ofInt q.weightZeroPoint

def forConv (shape : Shape) (kernels : Kernels) : WeightPlan :=
  { shape, kernels, weightZeroPoint := zeroPoint shape.precision }

def forMatmul (policy : PlanningPolicy) (shape : Fc.Shape) : Planner WeightPlan := do
  let shape ← shape.tryAsConvShape policy
  return { shape, kernels := Fc.kernels, weightZeroPoint := none }

def elementBytes (plan : WeightPlan) : Planner Nat := do
  let precision := plan.shape.precision.debug
  let bits := plan.shape.precision.elementBits
  refuseUnless (bits % 8 = 0) .unsupportedSemantics s!"{precision} coefficients are sub-byte"
  return bits / 8

def denseBytes (plan : WeightPlan) : Planner Nat := do
  let elements ← someOr (checkedProduct plan.kernels.1
      ([plan.kernels.2, plan.shape.inChannels] ++
        if plan.shape.depthwise then [] else [plan.shape.outChannels]))
    .hardwareLimit "dense coefficient byte count overflows usize"
  let elementBytes ← plan.elementBytes
  someOr (checkedMul elements elementBytes) .hardwareLimit
    "dense coefficient byte count overflows usize"

/-- `parity_padded_shape` returns the shape itself. -/
def programmedOutChannels (plan : WeightPlan) : Planner Nat := return plan.shape.outChannels

def packedBytes (plan : WeightPlan) : Planner Nat := do
  if plan.shape.depthwise then plan.shape.tryWeightBytes plan.kernels
  else do
    let programmed ← plan.programmedOutChannels
    let elementBytes ← plan.elementBytes
    invalidShape (rocketWeightStorageSize plan.kernels.1 plan.kernels.2 plan.shape.inChannels
      programmed elementBytes)

/-- The packer the plan selects. -/
def select (plan : WeightPlan) (programmed elementBytes : Nat) (dense packed : Bytes) :
    Except String (Nat × Bytes) :=
  let kh := plan.kernels.1
  let kw := plan.kernels.2
  let cin := plan.shape.inChannels
  let cout := plan.shape.outChannels
  if plan.shape.depthwise then
    packDepthwiseToRocketWeights dense kh kw cin plan.shape.depthwisePaddedChannels elementBytes
      packed
  else
    match plan.weightZeroPoint with
    | some zeroPoint =>
      if programmed > cout then
        if zeroPoint ≠ 0 then
          .error "programmed Cout padding requires symmetric accumulator weights"
        else packHwcfToRocketWeightsPadded dense kh kw cin cout programmed elementBytes packed
      else
        packHwcfToRocketWeightsAffineI8 dense kh kw cin cout (List.replicate cout zeroPoint) packed
    | none => packHwcfToRocketWeights dense kh kw cin cout elementBytes packed

def pack (plan : WeightPlan) (dense packed : Bytes) : Planner (Nat × Bytes) := do
  let denseLen ← plan.denseBytes
  let packedLen ← plan.packedBytes
  let denseCount := dense.length
  let packedCount := packed.length
  refuseUnless (dense.length = denseLen) .invalidShape
    s!"dense filter is {denseCount} bytes, the shape needs {denseLen}"
  refuseUnless (packedLen ≤ packed.length) .invalidShape
    s!"packed buffer is {packedCount} bytes, the layout needs {packedLen}"
  let elementBytes ← plan.elementBytes
  let programmed ← plan.programmedOutChannels
  invalidShape (plan.select programmed elementBytes dense packed)

end WeightPlan

/-- A precision with a zero point has bytes for elements. -/
theorem elementBytes_of_zeroPoint {p : Precision} (h : WeightPlan.zeroPoint p ≠ none) :
    p.elementBytes = 1 := by
  cases p with
  | int8 | int8Accumulator => simp [Precision.elementBytes, Precision.elementBits]
  | _ => exact absurd rfl h

/-! ### Filling a destination -/

theorem invalidShape_ok {α : Type} {x : Except String α} {a : α} :
    invalidShape x = .ok a ↔ x = .ok a := by
  cases x <;> simp [invalidShape]

theorem zeroed_length_self (packed : Bytes) :
    zeroed packed packed.length = List.replicate packed.length 0 := by
  simp [zeroed]

theorem length_storeSlot (dense : Bytes) (outputChannels elementSize : Nat)
    (zeroPoints : Option (List Int8)) (packed : Bytes) (visit : (Option Nat × Nat) × Nat) :
    (storeSlot dense outputChannels elementSize zeroPoints packed visit).length = packed.length := by
  obtain ⟨⟨source, outputChannel⟩, slot⟩ := visit
  cases source with
  | some source => exact length_store _ _ _
  | none =>
    cases zeroPoints with
    | none => rfl
    | some zeroPoints =>
      simp only [storeSlot]
      split_ifs
      · exact List.length_set
      · rfl

theorem length_packHwcf {dense packed : Bytes} {kh kw cin cout padded elementSize : Nat}
    {zeroPoints : Option (List Int8)} {result : Nat × Bytes}
    (h : packHwcfToRocketWeightsImpl dense kh kw cin cout padded elementSize zeroPoints packed =
      .ok result) : result.2.length = packed.length := by
  unfold packHwcfToRocketWeightsImpl at h
  simp only [bind_ok, unlessErr_ok, pure_ok, exists_const] at h
  obtain ⟨-, -, -, -, packedLen, -, hle, layout, -, rfl⟩ := h
  rw [length_foldl (length_storeSlot _ _ _ _), length_zeroed hle]

theorem length_packDepthwise {dense packed : Bytes} {kh kw channels padded elementSize : Nat}
    {result : Nat × Bytes}
    (h : packDepthwiseToRocketWeights dense kh kw channels padded elementSize packed = .ok result) :
    result.2.length = packed.length := by
  unfold packDepthwiseToRocketWeights at h
  simp only [bind_ok, unlessErr_ok, pure_ok, exists_const] at h
  obtain ⟨-, -, -, -, packedLen, -, hle, rfl⟩ := h
  rw [length_foldl fun _ _ => length_store _ _ _, length_zeroed hle]

/-- A destination of exactly the packed size is filled whole. -/
theorem packHwcf_eq_fresh {dense packed : Bytes} {kh kw cin cout padded elementSize : Nat}
    {zeroPoints : Option (List Int8)}
    (hsize : rocketWeightStorageSize kh kw cin padded elementSize = .ok packed.length) :
    packHwcfToRocketWeightsImpl dense kh kw cin cout padded elementSize zeroPoints packed =
      packHwcfToRocketWeightsImpl dense kh kw cin cout padded elementSize zeroPoints
        (List.replicate packed.length 0) := by
  have hfresh : zeroed (List.replicate packed.length 0) packed.length =
      List.replicate packed.length (0 : UInt8) := by
    simp [zeroed]
  unfold packHwcfToRocketWeightsImpl
  rw [hsize]
  simp only [bind, Except.bind, List.length_replicate, zeroed_length_self, hfresh]

theorem packDepthwise_eq_fresh {dense packed : Bytes} {kh kw channels padded elementSize : Nat}
    (hsize : checkedProduct kh [kw, padded, elementSize] = some packed.length) :
    packDepthwiseToRocketWeights dense kh kw channels padded elementSize packed =
      packDepthwiseToRocketWeights dense kh kw channels padded elementSize
        (List.replicate packed.length 0) := by
  have hfresh : zeroed (List.replicate packed.length 0) packed.length =
      List.replicate packed.length (0 : UInt8) := by
    simp [zeroed]
  unfold packDepthwiseToRocketWeights
  rw [hsize]
  simp only [bind, Except.bind, okOr, List.length_replicate, zeroed_length_self, hfresh]

namespace WeightPlan

variable {plan : WeightPlan}

theorem elementBytes_ok (h : plan.shape.precision.elementBits % 8 = 0) :
    plan.elementBytes = .ok plan.shape.precision.elementBytes := by
  unfold elementBytes
  simp only [bind_ok, refuseUnless_ok, pure_ok, exists_const]
  exact ⟨h, rfl⟩

theorem denseBytes_ok {dense : Nat} (h : plan.shape.precision.elementBits % 8 = 0)
    (hdense : checkedProduct plan.kernels.1 ([plan.kernels.2, plan.shape.inChannels] ++
      (if plan.shape.depthwise then [] else [plan.shape.outChannels]) ++
        [plan.shape.precision.elementBytes]) = some dense) : plan.denseBytes = .ok dense := by
  rw [checkedProduct_append, Option.bind_eq_some_iff] at hdense
  obtain ⟨elements, helements, hmul⟩ := hdense
  unfold denseBytes
  simp only [bind_ok, someOr_ok]
  exact ⟨elements, helements, _, elementBytes_ok h, hmul⟩

theorem packedBytes_of_depthwise (h : plan.shape.depthwise) :
    plan.packedBytes = plan.shape.tryWeightBytes plan.kernels := if_pos h

theorem packedBytes_of_dense {packed : Nat} (h : plan.shape.depthwise = false)
    (hbits : plan.shape.precision.elementBits % 8 = 0)
    (hsize : rocketWeightStorageSize plan.kernels.1 plan.kernels.2 plan.shape.inChannels
      plan.shape.outChannels plan.shape.precision.elementBytes = .ok packed) :
    plan.packedBytes = .ok packed := by
  unfold packedBytes programmedOutChannels
  rw [if_neg (by simp [h])]
  simp only [bind_ok, pure_ok, exists_eq_left', invalidShape_ok]
  exact ⟨_, elementBytes_ok hbits, hsize⟩

theorem pack_ok {dense packed : Bytes} {result : Nat × Bytes} :
    plan.pack dense packed = .ok result ↔
      ∃ packedLen elementBytes, plan.denseBytes = .ok dense.length ∧
        plan.packedBytes = .ok packedLen ∧ packedLen ≤ packed.length ∧
        plan.elementBytes = .ok elementBytes ∧
        plan.select plan.shape.outChannels elementBytes dense packed = .ok result := by
  unfold pack programmedOutChannels
  simp only [bind_ok, refuseUnless_ok, pure_ok, exists_const, invalidShape_ok, exists_eq_left']
  constructor
  · rintro ⟨denseLen, hdense, packedLen, hpacked, rfl, hle, elementBytes, helement, h⟩
    exact ⟨packedLen, elementBytes, hdense, hpacked, hle, helement, h⟩
  · rintro ⟨packedLen, elementBytes, hdense, hpacked, hle, helement, h⟩
    exact ⟨_, hdense, packedLen, hpacked, rfl, hle, elementBytes, helement, h⟩

end WeightPlan

end Weights

end IreeRocket
