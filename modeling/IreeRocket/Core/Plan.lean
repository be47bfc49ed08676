import IreeRocket.Core.Cbuf

/-!
# Convolution plans

`ConvPlan.tryNew` picks a CBUF partition for the kernel and hands it to `newWithCbufPartition`, which
tries one grid of full-width tiles, then (for surface layouts) the captured column partition of the
shape, then balanced partitions into two, three, ... columns.
-/

namespace IreeRocket.Conv

/-- The first count the planner can split uniformly into aligned tiles of at most `maxRows` rows:
`(1..=output_height).find_map(..)`, from `count` on with `rest` counts to try. -/
def firstUniformSplit (shape : Shape) (kernels : Kernels) (maxRows : Nat) :
    Nat → Nat → Planner (Option (List Tile))
  | _, 0 => pure none
  | count, rest + 1 => do
    let rows ← Tile.split shape kernels count
    if rows.all (fun tile => tile.inRows ≤ maxRows) then
      match realignDenseRowTiles shape kernels rows maxRows with
      | some realigned => return some realigned
      | none => firstUniformSplit shape kernels maxRows (count + 1) rest
    else firstUniformSplit shape kernels maxRows (count + 1) rest

/-- The row tiles of one column: the greedy filler realigned, else the first uniform split that can
be. -/
def rowTiles (shape : Shape) (kernels : Kernels) (maxRows : Nat) : Planner (Option (List Tile)) :=
  match Tile.splitGreedyToCapacity shape kernels maxRows with
  | none => pure none
  | some greedy =>
    match realignDenseRowTiles shape kernels greedy maxRows with
    | some realigned => pure (some realigned)
    | none => firstUniformSplit shape kernels maxRows 1 (shape.outputHeight kernels)

/-- The loop of `plan_grid` over the columns. -/
def planColumns (shape : Shape) (kernels : Kernels) (dataBanks : Nat) :
    List ColumnTile → Planner (Option (List Tile2D))
  | [] => pure (some [])
  | columns :: rest => do
    if columns.inCols > shape.maxTileInputWidth then return none
    let capacity ← shape.maxTileInputRowsForWidthAndDataBanks columns.inCols dataBanks
    let maxRows := min capacity (shape.maxFeatureGrainInputRows kernels)
    match ← rowTiles shape kernels maxRows with
    | none => return none
    | some rows =>
      match ← planColumns shape kernels dataBanks rest with
      | none => return none
      | some tiles => return some (rows.map (fun r => ⟨r, columns⟩) ++ tiles)

def planGrid (shape : Shape) (kernels : Kernels) (outputWidths : List Nat) (dataBanks : Nat) :
    Planner (Option (List Tile2D)) := do
  let columns ← ColumnTile.split shape kernels outputWidths
  planColumns shape kernels dataBanks columns

namespace Tile2D

/-- The loop of `grid` over the columns. -/
def gridFrom (shape : Shape) (kernels : Kernels) (dataBanks : Nat) :
    List ColumnTile → Planner (List Tile2D)
  | [] => pure []
  | columns :: rest => do
    let rowTiles ← shape.minTilesForWidthAndDataBanks kernels columns.inCols dataBanks
    let rows ← Tile.split shape kernels rowTiles
    let tiles ← gridFrom shape kernels dataBanks rest
    return rows.map (fun r => ⟨r, columns⟩) ++ tiles

def grid (shape : Shape) (kernels : Kernels) (outputWidths : List Nat) (dataBanks : Nat) :
    Planner (List Tile2D) := do
  let columns ← ColumnTile.split shape kernels outputWidths
  gridFrom shape kernels dataBanks columns

end Tile2D

/-- `feature_grains`: the kernel term is its height under the default padding, which is the
height. -/
def featureGrains (kernels : Kernels) (tile : Tile) : Nat :=
  tile.inRows + (kernelProgramming kernels none).height + tile.padTop

/-- `tiles.iter().all(..)`, with the capacity's assertions. -/
def gridFits (shape : Shape) (kernels : Kernels) (dataBanks : Nat) : List Tile2D → Planner Bool
  | [] => pure true
  | tile :: rest => do
    if tile.columns.inCols ≤ shape.maxTileInputWidth then
      let capacity ← shape.maxTileInputRowsForWidthAndDataBanks tile.columns.inCols dataBanks
      if tile.rows.inRows ≤ capacity ∧ featureGrains kernels tile.rows ≤ maxFeatureGrains then
        gridFits shape kernels dataBanks rest
      else return false
    else return false

def balancedColumnWidths (outputWidth columns : Nat) : List Nat :=
  (List.range columns).map fun index =>
    outputWidth / columns + if index < outputWidth % columns then 1 else 0

def capturedColumnPartition (shape : Shape) (kernels : Kernels) : Option (List Nat) :=
  if shape.width = 256 ∧ shape.height = 32 ∧ shape.stride = 1 ∧ shape.outChannels = 64 ∧
      shape.precision = .fp16 ∧ shape.padding = none then
    if kernels = (9, 9) ∧ shape.inChannels = 64 then some [135, 121]
    else if kernels = (11, 11) ∧ shape.inChannels = 48 then some [137, 119]
    else if kernels = (11, 11) ∧ shape.inChannels = 64 then some [59, 54, 54, 54, 35]
    else none
  else none

structure ConvPlan where
  shape : Shape
  kernels : Kernels
  dataBanks : Nat
  weightBanks : Nat
  outputColumnWidths : List Nat
  tiles : List Tile2D
  deriving DecidableEq, Repr

namespace ConvPlan

/-- `for column_count in 2..=output_width`, from `columnCount` on with `rest` counts to try. -/
def balancedSearch (shape : Shape) (kernels : Kernels) (dataBanks weightBanks : Nat) :
    Nat → Nat → Planner ConvPlan
  | _, 0 =>
    let debug := shape.debug
    let height := kernels.1
    let width := kernels.2
    .error (.refused ⟨.capacityExceeded,
      s!"no standalone tile fits {debug} [{height}, {width}] with CBUF split {dataBanks}/{weightBanks}"⟩)
  | columnCount, rest + 1 => do
    let outputColumnWidths := balancedColumnWidths (shape.outputWidth kernels) columnCount
    match ← planGrid shape kernels outputColumnWidths dataBanks with
    | some tiles =>
      return { shape, kernels, dataBanks, weightBanks, outputColumnWidths, tiles }
    | none => balancedSearch shape kernels dataBanks weightBanks (columnCount + 1) rest

def newWithCbufPartition (shape : Shape) (kernels : Kernels) (dataBanks weightBanks : Nat) :
    Planner ConvPlan := do
  let fullWidth := [shape.outputWidth kernels]
  match ← planGrid shape kernels fullWidth dataBanks with
  | some tiles =>
    return { shape, kernels, dataBanks, weightBanks, outputColumnWidths := fullWidth, tiles }
  | none =>
    refuseUnless (shape.layout = .surfaces) .unvalidatedConfiguration
      "convolution needs horizontal tiling, which is only capture-backed for NC1HWC2 surfaces"
    match capturedColumnPartition shape kernels with
    | some outputColumnWidths =>
      let tiles ← Tile2D.grid shape kernels outputColumnWidths dataBanks
      let fits ← gridFits shape kernels dataBanks tiles
      refuseUnless fits .internal
        "captured column partition exceeds its measured CBUF capacity"
      return { shape, kernels, dataBanks, weightBanks, outputColumnWidths, tiles }
    | none =>
      balancedSearch shape kernels dataBanks weightBanks 2 (shape.outputWidth kernels - 1)

/-- The square-kernel arms of `try_new`. -/
def squarePartition (policy : PlanningPolicy) (shape : Shape) (kernels : Kernels) :
    Planner (Nat × Nat) := do
  match kernels.1 with
  | 1 | 3 => shape.tryDemandBasedCbufPartition kernels
  | 2 | 4 | 6 | 8 | 10 => evenSquareCbufPartition shape kernels
  | 5 => do
    checkLargeKernelPlanCase policy shape 5 true
    shape.tryDemandBasedCbufPartition kernels
  | 7 => do
    checkLargeKernelPlanCase policy shape 7 true
    if shape.weightBankDemand kernels ≤ 7 then shape.tryDemandBasedCbufPartition kernels
    else return unstarvedLargeKernelPartition shape kernels (8, 4)
  | 9 => do
    checkLargeKernelPlanCase policy shape 9 false
    let captured := if 33 ≤ shape.inChannels ∧ shape.inChannels ≤ 48 then (7, 5) else (6, 6)
    return unstarvedLargeKernelPartition shape kernels captured
  | 11 => do
    checkLargeKernelPlanCase policy shape 11 false
    let captured :=
      if 1 ≤ shape.inChannels ∧ shape.inChannels ≤ 32 then (7, 5)
      else if 33 ≤ shape.inChannels ∧ shape.inChannels ≤ 48 then (5, 7)
      else (3, 9)
    return unstarvedLargeKernelPartition shape kernels captured
  | height =>
    .error (.refused ⟨.internal,
      s!"kernel_programming accepted an unsupported kernel [{height}, {height}]"⟩)

/-- The partition `try_new` plans under. -/
def cbufPartition (policy : PlanningPolicy) (shape : Shape) (kernels : Kernels) :
    Planner (Nat × Nat) :=
  if kernels.1 ≠ kernels.2 then nonSquareCbufPartition shape kernels
  else squarePartition policy shape kernels

def tryNew (policy : PlanningPolicy) (shape : Shape) (kernels : Kernels) : Planner ConvPlan := do
  let kernel ← shape.tryKernelProgramming kernels
  shape.checkExtentsAgainst kernel
  let _ ← shape.tryWeightBytes kernels
  let (dataBanks, weightBanks) ← cbufPartition policy shape kernels
  newWithCbufPartition shape kernels dataBanks weightBanks

/-- The sum of the banks is a `u32`. -/
def tryWithCbufBanks (shape : Shape) (kernels : Kernels) (dataBanks weightBanks : Nat) :
    Planner ConvPlan := do
  refuseUnless (0 < dataBanks ∧ 0 < weightBanks ∧ wrap32 (dataBanks + weightBanks) = cbufBanks)
    .invalidShape
    s!"explicit CBUF partition must have nonzero data and weight banks summing to {cbufBanks}; got data={dataBanks}, weights={weightBanks}"
  let kernel ← shape.tryKernelProgramming kernels
  shape.checkExtentsAgainst kernel
  let _ ← shape.tryWeightBytes kernels
  newWithCbufPartition shape kernels dataBanks weightBanks

end ConvPlan

end IreeRocket.Conv
