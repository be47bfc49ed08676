import IreeRocket.Core.Tile

/-!
# The CBUF: row capacities and bank partitions

How many input rows a tile of a given width may hold under a number of data banks, and how the
planner divides the twelve CBUF banks between feature data and coefficients. The capacity asserts
its arguments and divides by a `u32` product, so it can panic; the partitions can refuse.
-/

namespace IreeRocket.Conv

namespace Shape

/-! ### Capacities -/

/-- The rows whose bytes fit the data banks: the `capacity` of
`max_tile_input_rows_for_width_and_data_banks`. -/
def byteCapacity (s : Shape) (inputWidth dataBanks : Nat) : Planner Nat :=
  match s.layout with
  | .dense =>
    divide (dataBanks * (cbufBankBytes / 4))
      (wrap32 (s.cbufInputWidth inputWidth * s.denseCbufPixelBytes))
  | .surfaces =>
    let entriesPerRow := wrap32 (inputWidth * s.cbufAtoms) ⌈/⌉ cbufAtomsPerEntry
    divide (dataBanks * cbufBankBytes)
      (wrap32 (entriesPerRow * cbufAtomsPerEntry * featureAtomBytes))

def maxTileInputRowsForWidthAndDataBanks (s : Shape) (inputWidth dataBanks : Nat) : Planner Nat := do
  let width := s.width
  assertThat (1 ≤ dataBanks ∧ dataBanks < cbufBanks)
    "data banks must be between 1 and 11, leaving at least one weight bank"
  assertThat (1 ≤ inputWidth ∧ inputWidth ≤ s.width)
    s!"tile input width must be between 1 and the tensor width {width}"
  let chargedWidth := s.cbufInputWidth inputWidth
  let capacity ← s.byteCapacity inputWidth dataBanks
  return min capacity (maxDataEntries / chargedWidth)

def maxTileInputRowsForDataBanks (s : Shape) (dataBanks : Nat) : Planner Nat :=
  s.maxTileInputRowsForWidthAndDataBanks s.width dataBanks

def maxTileInputWidth (s : Shape) : Nat :=
  let extraSlabs :=
    match s.layout with
    | .dense => 0
    | .surfaces => s.cbufAtoms ⌈/⌉ cbufAtomsPerEntry - 1
  if extraSlabs = 0 then s.width else min (maxEntrySlabBase / extraSlabs) s.width

def maxFeatureGrainInputRows (s : Shape) (kernels : Kernels) : Nat :=
  let kernel := s.kernelProgramming kernels
  max (maxFeatureGrains - (kernel.height + kernel.padTop)) 1

def minTilesForWidthAndDataBanks (s : Shape) (kernels : Kernels) (inputWidth dataBanks : Nat) :
    Planner Nat := do
  let halo := (s.kernelProgramming kernels).height - 1
  let capacity ← s.maxTileInputRowsForWidthAndDataBanks inputWidth dataBanks
  let rows := max (min capacity (s.maxFeatureGrainInputRows kernels) - halo) 1
  let outputRows := max (rows ⌈/⌉ s.stride) 1
  return s.outputHeight kernels ⌈/⌉ outputRows

/-! ### Demands -/

/-- The product of the extents is a `u32`. -/
def dataBankDemand (s : Shape) : Nat :=
  max
    (match s.layout with
    | .dense =>
      wrap32 (wrap32 (s.cbufInputWidth s.width * s.height) * s.denseCbufPixelBytes) ⌈/⌉
        (8 * pixelsPerBankStep)
    | .surfaces => wrap32 (s.width * s.height * s.cbufAtoms) ⌈/⌉ (2 * pixelsPerBankStep))
    1

def weightBankDemand (s : Shape) (kernels : Kernels) : Nat :=
  max (s.weightBytes kernels ⌈/⌉ cbufBankBytes) 1

def streamedContractionChannels (s : Shape) : Nat :=
  if s.depthwise then 1 else s.weightChannels

end Shape

/-- Minimum safe `weight_banks` for a starved coefficient footprint. -/
def weightBanksFloor (weightChannels : Nat) : Nat :=
  if weightChannels ≤ 256 then 3 else min (3 + (weightChannels - 256) / 64) 5

def streamedWeightBankPreferenceForGroup (weightChannels : Nat) (kernels : Kernels)
    (groupDivisor elementBits : Nat) : Nat :=
  let groupBytesPerTap := 64 * max (elementBits / 16) 1
  let workingSet :=
    wrap32 (wrap32 (kernels.1 * kernels.2 * weightChannels) * groupBytesPerTap) / groupDivisor
  let entries := workingSet ⌈/⌉ cbufEntryBytes
  let banks := max (entries ⌈/⌉ cbufEntriesPerBank) 1
  if groupDivisor = 1 then banks
  else if banks < 2 then 2
  else
    let remainder := entries % cbufEntriesPerBank
    if remainder ≠ 0 ∧ cbufEntriesPerBank % remainder ≠ 0 then banks + 1 else banks

def streamedWeightBankPreference (weightChannels : Nat) (kernels : Kernels) (elementBits : Nat) :
    Nat :=
  let undivided := streamedWeightBankPreferenceForGroup weightChannels kernels 1 elementBits
  if undivided ≤ maxUndividedWeightBanks then undivided
  else streamedWeightBankPreferenceForGroup weightChannels kernels 2 elementBits

/-! ### Partitions -/

namespace Shape

/-- `granted.clamp(1, CBUF_BANKS - 1)` of the demand-only grant. -/
def demandGrant (s : Shape) (kernels : Kernels) : Nat :=
  let data := s.dataBankDemand
  let weights := s.weightBankDemand kernels
  let granted := if data ≤ weights then data else min data (cbufBanks - weights)
  min (max granted 1) (cbufBanks - 1)

/-- `try_demand_based_cbuf_partition`: `(data_banks, weight_banks)`. -/
def tryDemandBasedCbufPartition (s : Shape) (kernels : Kernels) : Planner (Nat × Nat) := do
  let data := s.dataBankDemand
  let weights := s.weightBankDemand kernels
  let dataBanks := s.demandGrant kernels
  let weightBanks := cbufBanks - dataBanks
  let streamedPreference :=
    streamedWeightBankPreference s.streamedContractionChannels kernels s.precision.elementBits
  let height := kernels.1
  let width := kernels.2
  let channels := s.weightChannels
  refuseUnless (streamedPreference < cbufBanks) .unvalidatedConfiguration
    s!"coefficient working set wants {streamedPreference} CBUF banks for {height}x{width} kernel and {channels} weight channels, more than the 11 grantable; the CBUF partition above that point is not capture-backed (see MAX_INPUT_CHANNELS' doc comment)"
  let floor := max (weightBanksFloor s.weightChannels) streamedPreference
  -- Starved to a single data bank: cap the coefficients and return the rest to the data.
  if dataBanks = 1 ∧ weightBanks > streamedPreference ∧ weights > streamedPreference then
    let weightBanks := min floor (cbufBanks - 1)
    return (cbufBanks - weightBanks, weightBanks)
  -- Clamped below the floor while wanting more.
  if weightBanks < floor ∧ weights > weightBanks then
    let weightBanks := min floor (cbufBanks - 1)
    return (cbufBanks - weightBanks, weightBanks)
  let wholeDataBanks := min data (cbufBanks - 1)
  let wholeWeightBanks := cbufBanks - wholeDataBanks
  let wholeRows := (Tile.whole s kernels).inRows
  let baseline ← s.maxTileInputRowsForDataBanks dataBanks
  let wholeData ← s.maxTileInputRowsForDataBanks wholeDataBanks
  if wholeDataBanks > dataBanks ∧ wholeWeightBanks ≥ floor ∧ ¬ wholeRows ≤ baseline ∧
      wholeRows ≤ wholeData then
    return (wholeDataBanks, wholeWeightBanks)
  else
    return (dataBanks, weightBanks)

end Shape

def maxNonSquareDemandBasedWeightBanks : Nat := 5
def maxEvenSquareDemandBasedWeightBanks : Nat := 8
def maxEvenNonSquareFp16DemandBasedWeightBanks : Nat := 6
def maxEvenNonSquareInt8DemandBasedWeightBanks : Nat := 4

def evenSquareCbufPartition (shape : Shape) (kernels : Kernels) : Planner (Nat × Nat) := do
  refuseUnless (shape.stride = 1) .unvalidatedConfiguration
    "even kernels currently have capture backing only at stride 1"
  let demand := shape.weightBankDemand kernels
  let height := kernels.1
  let width := kernels.2
  let limit := maxEvenSquareDemandBasedWeightBanks
  refuseUnless (demand ≤ limit) .unvalidatedConfiguration
    s!"even square kernel [{height}, {width}] needs {demand} coefficient banks, above the {limit} where the captured split follows coefficient demand; use an explicit CBUF split"
  shape.tryDemandBasedCbufPartition kernels

/-- The demand limit of a non-square kernel and the word the refusal names it by. -/
def nonSquareLimit (precision : Precision) (kernels : Kernels) : Nat × String :=
  if kernels.1 % 2 = 0 ∧ kernels.2 % 2 = 0 then
    match precision with
    | .fp16 => (maxEvenNonSquareFp16DemandBasedWeightBanks, "even")
    | _ => (maxEvenNonSquareInt8DemandBasedWeightBanks, "even")
  else (maxNonSquareDemandBasedWeightBanks, "non-square")

def nonSquareCbufPartition (shape : Shape) (kernels : Kernels) : Planner (Nat × Nat) := do
  refuseUnless (shape.stride = 1) .unvalidatedConfiguration
    "non-square kernels currently have capture backing only at stride 1"
  let _ ← shape.tryKernelProgramming kernels
  let (limit, parity) := nonSquareLimit shape.precision kernels
  let demand := shape.weightBankDemand kernels
  let height := kernels.1
  let width := kernels.2
  refuseUnless (demand ≤ limit) .unvalidatedConfiguration
    s!"{parity} kernel [{height}, {width}] needs {demand} coefficient banks, above the {limit} where the captured split stops following coefficient demand; use an explicit CBUF split"
  shape.tryDemandBasedCbufPartition kernels

/-- 5x5 has no measured ceiling; `2 ^ 32 - 1` is `u32::MAX`. -/
def largeKernelMaxInChannels (precision : Precision) (kernel : Nat) : Nat :=
  if kernel ≤ 5 then 2 ^ 32 - 1
  else if kernel = 9 then 128
  else if kernel = 11 then 64
  else
    match precision with
    | .tf32 => 96
    | .int4 => 224
    | _ => 208

def checkLargeKernelPlanCase (policy : PlanningPolicy) (shape : Shape) (kernel : Nat)
    (precisionNeutral : Bool) : Planner Unit := do
  if policy.allowLargeKernelProbing then return ()
  refuseUnless (precisionNeutral ∨ shape.precision = .fp16) .unvalidatedConfiguration
    "automatic planning at this kernel size currently has capture backing only for fp16"
  refuseUnless (shape.stride = 1) .unvalidatedConfiguration
    "automatic planning above 3x3 currently has capture backing only at stride 1"
  let ceiling := largeKernelMaxInChannels shape.precision kernel
  let precision := shape.precision.debug
  let channels := shape.inChannels
  refuseUnless (shape.inChannels ≤ ceiling) .unvalidatedConfiguration
    s!"{kernel}x{kernel} {precision} is measured correct only to Cin {ceiling}, not {channels}; above it the NPU hangs and the watchdog kills the job"

def unstarvedLargeKernelPartition (shape : Shape) (kernels : Kernels) (captured : Nat × Nat) :
    Nat × Nat :=
  let preference :=
    streamedWeightBankPreference shape.streamedContractionChannels kernels
      shape.precision.elementBits
  let weightBanks := min (max captured.2 preference) (cbufBanks - 1)
  (cbufBanks - weightBanks, weightBanks)

end IreeRocket.Conv
