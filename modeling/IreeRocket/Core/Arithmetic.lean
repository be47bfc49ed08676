import IreeRocket.Core.PlanTotal

/-!
# The planner's `u32` arithmetic

The plain `u32` operations that planning evaluates, in the order of the source: every function of the
planner that computes has a companion with the suffix `Ops` that lists the operations one call of it
evaluates, its callees' included. Operations on literals, saturating and checked operations, and the
total ones (division by a nonzero number, `div_ceil`, `min`, `max`) are not listed; nor is the `u64`
arithmetic of `try_weight_bytes`. Operands are the values of the release build.
-/

namespace IreeRocket.Conv

/-- A `u32` operation that panics in a debug build when its result leaves the type. -/
inductive Op
  | add (a b : Nat)
  | sub (a b : Nat)
  | mul (a b : Nat)
  | nextMultiple (a b : Nat)
  deriving DecidableEq, Repr

def Op.InRange : Op → Prop
  | add a b => a + b < 2 ^ 32
  | sub a b => b ≤ a
  | mul a b => a * b < 2 ^ 32
  | nextMultiple a b => nextMultipleOf a b < 2 ^ 32

instance (op : Op) : Decidable op.InRange := by
  cases op <;> simp only [Op.InRange] <;> infer_instance

def AllInRange (ops : List Op) : Prop := ∀ op ∈ ops, op.InRange

instance (ops : List Op) : Decidable (AllInRange ops) :=
  inferInstanceAs (Decidable (∀ op ∈ ops, op.InRange))

@[simp] theorem allInRange_nil : AllInRange [] := fun _ h => absurd h List.not_mem_nil

@[simp] theorem allInRange_cons {op : Op} {ops : List Op} :
    AllInRange (op :: ops) ↔ op.InRange ∧ AllInRange ops := List.forall_mem_cons

@[simp] theorem allInRange_append {ops ops' : List Op} :
    AllInRange (ops ++ ops') ↔ AllInRange ops ∧ AllInRange ops' := List.forall_mem_append

/-! ### Shapes -/

def quadAtomsOps (atoms : Nat) : List Op := if atoms % 4 = 3 then [.add atoms 1] else []

namespace Shape

def checkExtentsOps (s : Shape) (kernel : KernelProgramming) : List Op :=
  [.mul 2 kernel.padLeft, .add s.width (2 * kernel.padLeft)] ++
  -- the second extent is looked at only when the first one passes
  if kernel.width ≤ s.width + 2 * kernel.padLeft then
    [.mul 2 kernel.padTop, .add s.height (2 * kernel.padTop)]
  else []

def weightChannelsOps (s : Shape) : List Op :=
  if s.precision.sharesFp16Layout then
    quadAtomsOps s.featureAtoms ++ [.mul (quadAtoms s.featureAtoms) s.precision.channelsPerAtom]
  else [.mul s.featureAtoms s.precision.channelsPerAtom]

def programmedKernelsOps (s : Shape) : List Op :=
  if s.depthwise then []
  else if 16 ≤ s.precision.elementBits then []
  else [.nextMultiple s.outChannels 2]

def tryWeightBytesOps (s : Shape) : List Op :=
  if s.depthwise then quadAtomsOps s.featureAtoms
  else s.weightChannelsOps ++ s.programmedKernelsOps

def bytesForOps (p : Precision) (elements : Nat) : List Op := [.mul elements p.elementBits]

def weightBytesOps (s : Shape) (kernels : Kernels) : List Op :=
  let kernel := s.kernelProgramming kernels
  if s.depthwise then
    let elements := wrap32 (s.cbufAtoms * s.precision.channelsPerAtom)
    [.mul kernel.height kernel.width] ++ quadAtomsOps s.featureAtoms ++
      [.mul s.cbufAtoms s.precision.channelsPerAtom] ++ bytesForOps s.precision elements ++
      [.mul (kernel.height * kernel.width) (s.precision.bytesFor elements)]
  else
    let elements := wrap32 (s.weightChannels * s.programmedKernels)
    [.mul kernel.height kernel.width] ++ s.weightChannelsOps ++ s.programmedKernelsOps ++
      [.mul s.weightChannels s.programmedKernels] ++ bytesForOps s.precision elements ++
      [.mul (kernel.height * kernel.width) (s.precision.bytesFor elements)]

def outputWidthOps (s : Shape) (kernels : Kernels) : List Op :=
  let kernel := s.kernelProgramming kernels
  let padded := s.width + 2 * kernel.padLeft
  [.mul 2 kernel.padLeft, .add s.width (2 * kernel.padLeft), .sub padded kernel.width,
    .add ((padded - kernel.width) / s.stride) 1]

def outputHeightOps (s : Shape) (kernels : Kernels) : List Op :=
  let kernel := s.kernelProgramming kernels
  let padded := s.height + 2 * kernel.padTop
  [.mul 2 kernel.padTop, .add s.height (2 * kernel.padTop), .sub padded kernel.height,
    .add ((padded - kernel.height) / s.stride) 1]

def cbufInputWidthOps (s : Shape) (inputWidth : Nat) : List Op :=
  match s.layout with
  | .dense => [.nextMultiple inputWidth s.precision.channelsPerAtom]
  | .surfaces => []

def denseCbufPixelBytesOps (s : Shape) : List Op := [.mul s.storedChannels s.precision.elementBytes]

/-- `tile_in_first`. -/
def tileInFirstOps (s : Shape) (outFirst : Nat) : List Op := [.mul outFirst s.stride]

/-- `dense_feature_offset_safe`. -/
def denseFeatureOffsetOps (s : Shape) (inFirst : Nat) : List Op :=
  match s.layout with
  | .dense =>
    [.mul s.width s.inChannels, .mul (s.width * s.inChannels) s.precision.elementBytes,
      .mul inFirst s.inputRowStride]
  | .surfaces => []

def dataBankDemandOps (s : Shape) : List Op :=
  match s.layout with
  | .dense =>
    s.cbufInputWidthOps s.width ++ [.mul (s.cbufInputWidth s.width) s.height] ++
      s.denseCbufPixelBytesOps ++
      [.mul (wrap32 (s.cbufInputWidth s.width * s.height)) s.denseCbufPixelBytes]
  | .surfaces =>
    [.mul s.width s.height] ++ quadAtomsOps s.featureAtoms ++ [.mul (s.width * s.height) s.cbufAtoms]

/-- `max_tile_input_rows_for_width_and_data_banks`, past its assertions. -/
def capacityOps (s : Shape) (inputWidth dataBanks : Nat) : List Op :=
  s.cbufInputWidthOps inputWidth ++
  match s.layout with
  | .dense =>
    [.mul dataBanks (cbufBankBytes / 4)] ++ s.denseCbufPixelBytesOps ++
      [.mul (s.cbufInputWidth inputWidth) s.denseCbufPixelBytes]
  | .surfaces =>
    let entriesPerRow := wrap32 (inputWidth * s.cbufAtoms) ⌈/⌉ cbufAtomsPerEntry
    quadAtomsOps s.featureAtoms ++ [.mul inputWidth s.cbufAtoms, .mul dataBanks cbufBankBytes,
      .mul entriesPerRow cbufAtomsPerEntry,
      .mul (wrap32 (entriesPerRow * cbufAtomsPerEntry)) featureAtomBytes]

def maxTileInputWidthOps (s : Shape) : List Op :=
  match s.layout with
  | .dense => []
  | .surfaces => quadAtomsOps s.featureAtoms ++ [.sub (s.cbufAtoms ⌈/⌉ cbufAtomsPerEntry) 1]

def maxFeatureGrainOps (s : Shape) (kernels : Kernels) : List Op :=
  let kernel := s.kernelProgramming kernels
  [.add kernel.height kernel.padTop]

/-- The operations of `min_tiles_for_width_and_data_banks`. -/
def minTilesOps (s : Shape) (kernels : Kernels) (inputWidth dataBanks : Nat) : List Op :=
  [.sub (s.kernelProgramming kernels).height 1] ++ s.capacityOps inputWidth dataBanks ++
    s.maxFeatureGrainOps kernels ++ s.outputHeightOps kernels

end Shape

/-! ### Tiles -/

namespace Tile

def fromBoundsOps (shape : Shape) (kernels : Kernels) (outFirst outRows : Nat) : List Op :=
  let kernel := shape.kernelProgramming kernels
  let inFirst := shape.tileInFirst kernels outFirst
  let lastTap := (outFirst + outRows - 1) * shape.stride + kernel.height - 1
  let inLast := min (lastTap - kernel.padTop) (shape.height - 1)
  shape.tileInFirstOps outFirst ++
    [.add outFirst outRows, .sub (outFirst + outRows) 1, .mul (outFirst + outRows - 1) shape.stride,
      .add ((outFirst + outRows - 1) * shape.stride) kernel.height,
      .sub ((outFirst + outRows - 1) * shape.stride + kernel.height) 1,
      .sub shape.height 1, .sub inLast inFirst, .add (inLast - inFirst) 1,
      .mul outRows shape.stride, .sub shape.height inFirst, .mul outFirst shape.stride]

/-- The loop of `split` from tile `index` on. -/
def splitFromOps (shape : Shape) (kernels : Kernels) (tiles : Nat) : Nat → Nat → Nat → List Op
  | _, _, 0 => []
  | index, outFirst, rest + 1 =>
    let outRows := splitRows (shape.outputHeight kernels) tiles index
    [.add (shape.outputHeight kernels / tiles)
        (if index < shape.outputHeight kernels % tiles then 1 else 0)] ++
      fromBoundsOps shape kernels outFirst outRows ++ [.add outFirst outRows] ++
      splitFromOps shape kernels tiles (index + 1) (outFirst + outRows) rest

def splitOps (shape : Shape) (kernels : Kernels) (tiles : Nat) : List Op :=
  shape.outputHeightOps kernels ++ splitFromOps shape kernels tiles 0 0 tiles

/-- What the greedy filler computes for one candidate. -/
def capacityRowsOps (shape : Shape) (kernels : Kernels) (outFirst outRows : Nat) : List Op :=
  let kernel := shape.kernelProgramming kernels
  let inFirst := shape.tileInFirst kernels outFirst
  let lastTap := (outFirst + outRows - 1) * shape.stride + kernel.height - 1
  let unclippedInLast := lastTap - kernel.padTop
  fromBoundsOps shape kernels outFirst outRows ++ shape.tileInFirstOps outFirst ++
    [.add outFirst outRows, .sub (outFirst + outRows) 1, .mul (outFirst + outRows - 1) shape.stride,
      .add ((outFirst + outRows - 1) * shape.stride) kernel.height,
      .sub ((outFirst + outRows - 1) * shape.stride + kernel.height) 1,
      .sub unclippedInLast inFirst, .add (unclippedInLast - inFirst) 1, .mul outRows shape.stride]

/-- The candidates from `n` down to the first that fits. -/
def findDownOps (ops : Nat → List Op) (fits : Nat → Bool) : Nat → List Op
  | 0 => []
  | n + 1 => ops (n + 1) ++ if fits (n + 1) then [] else findDownOps ops fits n

def greedyFromOps (shape : Shape) (kernels : Kernels) (maxInputRows : Nat) : Nat → Nat → List Op
  | 0, _ => []
  | fuel + 1, outFirst =>
    if outFirst < shape.outputHeight kernels then
      let remaining := shape.outputHeight kernels - outFirst
      let fits := fun outRows => decide (capacityRows shape kernels outFirst outRows ≤ maxInputRows)
      [.sub (shape.outputHeight kernels) outFirst] ++
        findDownOps (capacityRowsOps shape kernels outFirst) fits remaining ++
        match findDown fits remaining with
        | none => []
        | some outRows =>
          [.add outFirst outRows] ++
            greedyFromOps shape kernels maxInputRows fuel (outFirst + outRows)
    else []

def splitGreedyToCapacityOps (shape : Shape) (kernels : Kernels) (maxInputRows : Nat) : List Op :=
  let outputHeight := shape.outputHeight kernels
  let whole := fromBounds shape kernels 0 outputHeight
  shape.outputHeightOps kernels ++ fromBoundsOps shape kernels 0 outputHeight ++
    if whole.inRows ≤ maxInputRows then []
    else greedyFromOps shape kernels maxInputRows outputHeight 0

/-- `Tile::whole`. -/
def wholeOps (shape : Shape) (kernels : Kernels) : List Op := splitOps shape kernels 1

end Tile

namespace ColumnTile

def fromOutputRangeOps (shape : Shape) (kernels : Kernels) (outFirst outCols : Nat) : List Op :=
  let kernel := shape.kernelProgramming kernels
  let inFirst := outFirst * shape.stride - kernel.padLeft
  let lastTap := (outFirst + outCols - 1) * shape.stride + kernel.width - 1
  let inLast := min (lastTap - kernel.padLeft) (shape.width - 1)
  shape.outputWidthOps kernels ++
    [.add outFirst outCols, .mul outFirst shape.stride, .sub (outFirst + outCols) 1,
      .mul (outFirst + outCols - 1) shape.stride,
      .add ((outFirst + outCols - 1) * shape.stride) kernel.width,
      .sub ((outFirst + outCols - 1) * shape.stride + kernel.width) 1, .sub shape.width 1,
      .sub inLast inFirst, .add (inLast - inFirst) 1, .sub shape.width inFirst] ++
    if outFirst = 0 ∧ outFirst + outCols = shape.outputWidth kernels then []
    else [.mul outCols shape.stride]

def splitFromOps (shape : Shape) (kernels : Kernels) : Nat → List Nat → List Op
  | _, [] => []
  | outFirst, outCols :: widths =>
    fromOutputRangeOps shape kernels outFirst outCols ++ [.add outFirst outCols] ++
      splitFromOps shape kernels (outFirst + outCols) widths

/-- `output_widths.iter().sum::<u32>()`, from a partial sum on. -/
def sumOps : Nat → List Nat → List Op
  | _, [] => []
  | total, width :: widths => .add total width :: sumOps (total + width) widths

def splitOps (shape : Shape) (kernels : Kernels) (outputWidths : List Nat) : List Op :=
  sumOps 0 outputWidths ++ shape.outputWidthOps kernels ++ splitFromOps shape kernels 0 outputWidths

end ColumnTile

/-! ### Realigning dense row boundaries -/

/-- The offset of one boundary candidate. -/
def candidateOps (shape : Shape) (kernels : Kernels) (candidate : Nat) : List Op :=
  shape.tileInFirstOps candidate ++ shape.denseFeatureOffsetOps (shape.tileInFirst kernels candidate)

/-- The candidates up to the first safe one. -/
def searchOps (shape : Shape) (kernels : Kernels) : List Nat → List Op
  | [] => []
  | candidate :: rest =>
    candidateOps shape kernels candidate ++
      if shape.denseFeatureOffsetSafe (shape.tileInFirst kernels candidate) then []
      else searchOps shape kernels rest

def placeBoundaryOps (shape : Shape) (kernels : Kernels) (lower current upper : Nat) : List Op :=
  candidateOps shape kernels current ++
    if shape.denseFeatureOffsetSafe (shape.tileInFirst kernels current) then []
    else
      let maxDistance := max (current - lower) (upper - current)
      let candidates := (List.range' 1 maxDistance).flatMap fun distance =>
        if distance ≤ current then [current - distance, current + distance]
        else [current + distance]
      [.sub current lower, .sub upper current] ++
        searchOps shape kernels (candidates.filter fun c => lower ≤ c ∧ c ≤ upper)

def realignBoundariesOps (shape : Shape) (kernels : Kernels) : Nat → List Nat → List Op
  | previous, current :: next :: rest =>
    let lower := previous + 1
    let upper := next - 1
    [.add previous 1, .sub next 1] ++
    if lower > upper then []
    else
      placeBoundaryOps shape kernels lower current upper ++
        match placeBoundary shape kernels lower current upper with
        | none => []
        | some placed => realignBoundariesOps shape kernels placed (next :: rest)
  | _, _ => []

/-- The tiles between the boundaries. -/
def windowsOps (shape : Shape) (kernels : Kernels) : Nat → List Nat → List Op
  | _, [] => []
  | first, boundary :: rest =>
    [.sub boundary first] ++ Tile.fromBoundsOps shape kernels first (boundary - first) ++
      windowsOps shape kernels boundary rest

def realignDenseRowTilesOps (shape : Shape) (kernels : Kernels) (tiles : List Tile) : List Op :=
  if shape.layout ≠ .dense ∨ tiles.length ≤ 1 then []
  else
    shape.outputHeightOps kernels ++
    match tiles.map Tile.outFirst with
    | [] => []
    | first :: starts =>
      let boundaries := starts ++ [shape.outputHeight kernels]
      realignBoundariesOps shape kernels first boundaries ++
        match realignBoundaries shape kernels first boundaries with
        | none => []
        | some boundaries => windowsOps shape kernels first boundaries

/-! ### Plans -/

def firstUniformSplitOps (shape : Shape) (kernels : Kernels) (maxRows : Nat) : Nat → Nat → List Op
  | _, 0 => []
  | count, rest + 1 =>
    Tile.splitOps shape kernels count ++
    match Tile.split shape kernels count with
    | .error _ => []
    | .ok rows =>
      if rows.all (fun tile => tile.inRows ≤ maxRows) then
        realignDenseRowTilesOps shape kernels rows ++
          match realignDenseRowTiles shape kernels rows maxRows with
          | some _ => []
          | none => firstUniformSplitOps shape kernels maxRows (count + 1) rest
      else firstUniformSplitOps shape kernels maxRows (count + 1) rest

def rowTilesOps (shape : Shape) (kernels : Kernels) (maxRows : Nat) : List Op :=
  Tile.splitGreedyToCapacityOps shape kernels maxRows ++
  match Tile.splitGreedyToCapacity shape kernels maxRows with
  | none => []
  | some greedy =>
    realignDenseRowTilesOps shape kernels greedy ++
      match realignDenseRowTiles shape kernels greedy maxRows with
      | some _ => []
      | none =>
        shape.outputHeightOps kernels ++
          firstUniformSplitOps shape kernels maxRows 1 (shape.outputHeight kernels)

/-- The loop of `plan_grid` over the columns. -/
def planColumnsOps (shape : Shape) (kernels : Kernels) (dataBanks : Nat) : List ColumnTile → List Op
  | [] => []
  | columns :: rest =>
    shape.maxTileInputWidthOps ++
    if columns.inCols > shape.maxTileInputWidth then []
    else
      shape.capacityOps columns.inCols dataBanks ++
      match shape.maxTileInputRowsForWidthAndDataBanks columns.inCols dataBanks with
      | .error _ => []
      | .ok capacity =>
        let maxRows := min capacity (shape.maxFeatureGrainInputRows kernels)
        shape.maxFeatureGrainOps kernels ++ rowTilesOps shape kernels maxRows ++
          match rowTiles shape kernels maxRows with
          | .ok (some _) => planColumnsOps shape kernels dataBanks rest
          | _ => []

def planGridOps (shape : Shape) (kernels : Kernels) (outputWidths : List Nat) (dataBanks : Nat) :
    List Op :=
  ColumnTile.splitOps shape kernels outputWidths ++
  match ColumnTile.split shape kernels outputWidths with
  | .error _ => []
  | .ok columns => planColumnsOps shape kernels dataBanks columns

/-- The loop of `grid` over the columns. -/
def gridFromOps (shape : Shape) (kernels : Kernels) (dataBanks : Nat) : List ColumnTile → List Op
  | [] => []
  | columns :: rest =>
    shape.minTilesOps kernels columns.inCols dataBanks ++
    match shape.minTilesForWidthAndDataBanks kernels columns.inCols dataBanks with
    | .error _ => []
    | .ok rowTiles =>
      Tile.splitOps shape kernels rowTiles ++ gridFromOps shape kernels dataBanks rest

def featureGrainsOps (kernels : Kernels) (tile : Tile) : List Op :=
  [.add tile.inRows (kernelProgramming kernels none).height,
    .add (tile.inRows + (kernelProgramming kernels none).height) tile.padTop]

/-- `grid_fits`. -/
def gridFitsOps (shape : Shape) (kernels : Kernels) (dataBanks : Nat) : List Tile2D → List Op
  | [] => []
  | tile :: rest =>
    shape.maxTileInputWidthOps ++
    if tile.columns.inCols ≤ shape.maxTileInputWidth then
      shape.capacityOps tile.columns.inCols dataBanks ++
      match shape.maxTileInputRowsForWidthAndDataBanks tile.columns.inCols dataBanks with
      | .error _ => []
      | .ok capacity =>
        if tile.rows.inRows ≤ capacity then
          featureGrainsOps kernels tile.rows ++
            if featureGrains kernels tile.rows ≤ maxFeatureGrains then
              gridFitsOps shape kernels dataBanks rest
            else []
        else []
    else []

def balancedColumnWidthsOps (outputWidth columns : Nat) : List Op :=
  (List.range columns).map fun index =>
    .add (outputWidth / columns) (if index < outputWidth % columns then 1 else 0)

def balancedSearchOps (shape : Shape) (kernels : Kernels) (dataBanks : Nat) : Nat → Nat → List Op
  | _, 0 => []
  | columnCount, rest + 1 =>
    let outputColumnWidths := balancedColumnWidths (shape.outputWidth kernels) columnCount
    balancedColumnWidthsOps (shape.outputWidth kernels) columnCount ++
      planGridOps shape kernels outputColumnWidths dataBanks ++
      match planGrid shape kernels outputColumnWidths dataBanks with
      | .ok none => balancedSearchOps shape kernels dataBanks (columnCount + 1) rest
      | _ => []

def newWithCbufPartitionOps (shape : Shape) (kernels : Kernels) (dataBanks : Nat) : List Op :=
  let fullWidth := [shape.outputWidth kernels]
  shape.outputWidthOps kernels ++ planGridOps shape kernels fullWidth dataBanks ++
  match planGrid shape kernels fullWidth dataBanks with
  | .ok none =>
    if shape.layout = .surfaces then
      match capturedColumnPartition shape kernels with
      | some outputColumnWidths =>
        ColumnTile.splitOps shape kernels outputColumnWidths ++
          (match ColumnTile.split shape kernels outputColumnWidths with
          | .error _ => []
          | .ok columns => gridFromOps shape kernels dataBanks columns) ++
          match Tile2D.grid shape kernels outputColumnWidths dataBanks with
          | .error _ => []
          | .ok tiles => gridFitsOps shape kernels dataBanks tiles
      | none =>
        shape.outputWidthOps kernels ++
          balancedSearchOps shape kernels dataBanks 2 (shape.outputWidth kernels - 1)
    else []
  | _ => []

/-! ### Partitions -/

def streamedWeightBankPreferenceForGroupOps (weightChannels : Nat) (kernels : Kernels)
    (groupDivisor elementBits : Nat) : List Op :=
  let groupBytesPerTap := 64 * max (elementBits / 16) 1
  let workingSet :=
    wrap32 (wrap32 (kernels.1 * kernels.2 * weightChannels) * groupBytesPerTap) / groupDivisor
  let entries := workingSet ⌈/⌉ cbufEntryBytes
  let banks := max (entries ⌈/⌉ cbufEntriesPerBank) 1
  let remainder := entries % cbufEntriesPerBank
  [.mul 64 (max (elementBits / 16) 1), .mul kernels.1 kernels.2,
    .mul (kernels.1 * kernels.2) weightChannels,
    .mul (wrap32 (kernels.1 * kernels.2 * weightChannels)) groupBytesPerTap] ++
  if groupDivisor = 1 ∨ banks < 2 then []
  else if remainder ≠ 0 ∧ cbufEntriesPerBank % remainder ≠ 0 then [.add banks 1]
  else []

def streamedWeightBankPreferenceOps (weightChannels : Nat) (kernels : Kernels) (elementBits : Nat) :
    List Op :=
  streamedWeightBankPreferenceForGroupOps weightChannels kernels 1 elementBits ++
  if streamedWeightBankPreferenceForGroup weightChannels kernels 1 elementBits ≤
      maxUndividedWeightBanks then []
  else streamedWeightBankPreferenceForGroupOps weightChannels kernels 2 elementBits

def weightBanksFloorOps (weightChannels : Nat) : List Op :=
  if weightChannels ≤ 256 then []
  else [.sub weightChannels 256, .add 3 ((weightChannels - 256) / 64)]

namespace Shape

def streamedContractionChannelsOps (s : Shape) : List Op :=
  if s.depthwise then [] else s.weightChannelsOps

/-- `streamed_weight_bank_preference` of the shape's own contraction. -/
def streamedPreference (s : Shape) (kernels : Kernels) : Nat :=
  streamedWeightBankPreference s.streamedContractionChannels kernels s.precision.elementBits

/-- `floor` of the demand-based partition. -/
def demandFloor (s : Shape) (kernels : Kernels) : Nat :=
  max (weightBanksFloor s.weightChannels) (s.streamedPreference kernels)

/-- A partition that returns before it compares row capacities: starved to one data bank, or clamped
below the floor. -/
def SettlesEarly (s : Shape) (kernels : Kernels) : Prop :=
  let dataBanks := s.demandGrant kernels
  let weightBanks := cbufBanks - dataBanks
  let weights := s.weightBankDemand kernels
  (dataBanks = 1 ∧ weightBanks > s.streamedPreference kernels ∧
      weights > s.streamedPreference kernels) ∨
    (weightBanks < s.demandFloor kernels ∧ weights > weightBanks)

instance (s : Shape) (kernels : Kernels) : Decidable (s.SettlesEarly kernels) :=
  inferInstanceAs (Decidable (_ ∨ _))

/-- `try_demand_based_cbuf_partition`. -/
def tryDemandBasedCbufPartitionOps (s : Shape) (kernels : Kernels) : List Op :=
  let dataBanks := s.demandGrant kernels
  let floor := s.demandFloor kernels
  let wholeDataBanks := min s.dataBankDemand (cbufBanks - 1)
  s.dataBankDemandOps ++ s.weightBytesOps kernels ++ [.sub cbufBanks dataBanks] ++
    s.streamedContractionChannelsOps ++
    streamedWeightBankPreferenceOps s.streamedContractionChannels kernels s.precision.elementBits ++
  if s.streamedPreference kernels < cbufBanks then
    s.weightChannelsOps ++ weightBanksFloorOps s.weightChannels ++
    if s.SettlesEarly kernels then [.sub cbufBanks (min floor (cbufBanks - 1))]
    else
      [.sub cbufBanks wholeDataBanks] ++ Tile.wholeOps s kernels ++ s.capacityOps s.width dataBanks ++
        s.capacityOps s.width wholeDataBanks
  else s.weightChannelsOps

end Shape

def evenSquareCbufPartitionOps (shape : Shape) (kernels : Kernels) : List Op :=
  if shape.stride = 1 then
    shape.weightBytesOps kernels ++
    if shape.weightBankDemand kernels ≤ maxEvenSquareDemandBasedWeightBanks then
      shape.tryDemandBasedCbufPartitionOps kernels
    else []
  else []

def nonSquareCbufPartitionOps (shape : Shape) (kernels : Kernels) : List Op :=
  if shape.stride = 1 then
    shape.weightBytesOps kernels ++
    if shape.weightBankDemand kernels ≤ (nonSquareLimit shape.precision kernels).1 then
      shape.tryDemandBasedCbufPartitionOps kernels
    else []
  else []

def unstarvedLargeKernelPartitionOps (shape : Shape) (kernels : Kernels) (captured : Nat × Nat) :
    List Op :=
  shape.streamedContractionChannelsOps ++
    streamedWeightBankPreferenceOps shape.streamedContractionChannels kernels
      shape.precision.elementBits ++
    [.sub cbufBanks (unstarvedLargeKernelPartition shape kernels captured).2]

namespace ConvPlan

/-- The square-kernel arms of `try_new`. -/
def squarePartitionOps (policy : PlanningPolicy) (shape : Shape) (kernels : Kernels) : List Op :=
  match kernels.1 with
  | 1 | 3 => shape.tryDemandBasedCbufPartitionOps kernels
  | 2 | 4 | 6 | 8 | 10 => evenSquareCbufPartitionOps shape kernels
  | 5 =>
    if (checkLargeKernelPlanCase policy shape 5 true).isOk then
      shape.tryDemandBasedCbufPartitionOps kernels
    else []
  | 7 =>
    if (checkLargeKernelPlanCase policy shape 7 true).isOk then
      shape.weightBytesOps kernels ++
      if shape.weightBankDemand kernels ≤ 7 then shape.tryDemandBasedCbufPartitionOps kernels
      else unstarvedLargeKernelPartitionOps shape kernels (8, 4)
    else []
  | 9 =>
    if (checkLargeKernelPlanCase policy shape 9 false).isOk then
      unstarvedLargeKernelPartitionOps shape kernels
        (if 33 ≤ shape.inChannels ∧ shape.inChannels ≤ 48 then (7, 5) else (6, 6))
    else []
  | 11 =>
    if (checkLargeKernelPlanCase policy shape 11 false).isOk then
      unstarvedLargeKernelPartitionOps shape kernels
        (if 1 ≤ shape.inChannels ∧ shape.inChannels ≤ 32 then (7, 5)
        else if 33 ≤ shape.inChannels ∧ shape.inChannels ≤ 48 then (5, 7)
        else (3, 9))
    else []
  | _ => []

def cbufPartitionOps (policy : PlanningPolicy) (shape : Shape) (kernels : Kernels) : List Op :=
  if kernels.1 ≠ kernels.2 then nonSquareCbufPartitionOps shape kernels
  else squarePartitionOps policy shape kernels

/-- The checks at the head of both planning entries, and what follows when they pass. -/
def checkedOps (shape : Shape) (kernels : Kernels) (planning : List Op) : List Op :=
  match shape.tryKernelProgramming kernels with
  | .error _ => []
  | .ok kernel =>
    shape.checkExtentsOps kernel ++
    match shape.checkExtentsAgainst kernel with
    | .error _ => []
    | .ok _ =>
      shape.tryWeightBytesOps ++
      match shape.tryWeightBytes kernels with
      | .error _ => []
      | .ok _ => planning

/-- The operations `ConvPlan::try_new` evaluates. -/
def tryNewOps (policy : PlanningPolicy) (shape : Shape) (kernels : Kernels) : List Op :=
  checkedOps shape kernels <|
    cbufPartitionOps policy shape kernels ++
    match cbufPartition policy shape kernels with
    | .error _ => []
    | .ok banks => newWithCbufPartitionOps shape kernels banks.1

/-- The operations `ConvPlan::try_with_cbuf_banks` evaluates. -/
def tryWithCbufBanksOps (shape : Shape) (kernels : Kernels) (dataBanks weightBanks : Nat) : List Op :=
  if 0 < dataBanks ∧ 0 < weightBanks then
    [.add dataBanks weightBanks] ++
    if wrap32 (dataBanks + weightBanks) = cbufBanks then
      checkedOps shape kernels (newWithCbufPartitionOps shape kernels dataBanks)
    else []
  else []

end ConvPlan

end IreeRocket.Conv
