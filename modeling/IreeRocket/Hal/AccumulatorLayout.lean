import IreeRocket.Core.Plan
import IreeRocket.Hal.ConvProgram
import IreeRocket.Hal.TensorLayout

/-!
# Staged accumulator output

An accumulator dispatch gives every tile a range of its own in one scratch buffer
(`accumulatorOutputLayout`), and `compactTiledAccumulatorOutput` gathers the ranges into the dense
output. The scratch is sized from the image and the ranges from the tiles.
-/

namespace IreeRocket.Conv

open Hal TensorLayout

namespace Shape

/-- Bytes one pixel occupies in one hardware output atom. -/
def outputAtomBytes (s : Shape) : Nat :=
  if s.depthwise ∧ s.precision.writesAccumulators then
    2 * s.precision.outChannelGranule * s.precision.outputElementBytes
  else outputChannelBlockBytes s

/-- `output_scratch_bytes`: whole atoms for the programmed channel count of every output pixel. -/
def outputScratchBytes (s : Shape) (kernels : Kernels) : Nat :=
  let channelBytes := s.paddedOutChannels * s.precision.outputElementBytes
  let blockBytes := s.outputAtomBytes
  let blockCount := channelBytes ⌈/⌉ blockBytes
  s.outputWidth kernels * s.outputHeight kernels * blockCount * blockBytes

end Shape

/-- One tile of the staged output: its range of the scratch and its rectangle of the image. -/
structure AccumulatorOutputTile where
  scratchOffset : Nat
  scratchBytes : Nat
  outputRow : Nat
  outputColumn : Nat
  outputRows : Nat
  outputColumns : Nat
  deriving DecidableEq, Repr

structure AccumulatorOutputLayout where
  tiles : List AccumulatorOutputTile
  scratchBytes : Nat
  deriving DecidableEq, Repr

/-- `usize::checked_add`. -/
def checkedAdd (a b : Nat) : Option Nat := if a + b < 2 ^ 64 then some (a + b) else none

/-- The `overflow` closure. -/
def accumulatorOverflow (shape : Shape) (kernels : Kernels) (what : String) : String :=
  let debug := shape.debug
  let height := kernels.1
  let width := kernels.2
  s!"accumulator {what} overflow for {debug} [{height}, {width}]"

/-- The loop over the tiles, from `scratchOffset` on: the ranges and where the last one ends. -/
def stageTiles (shape : Shape) (kernels : Kernels) (blocksPerPixel sourceBlockBytes : Nat) :
    Nat → List Tile2D → Planner (List AccumulatorOutputTile × Nat)
  | scratchOffset, [] => pure ([], scratchOffset)
  | scratchOffset, tile :: rest => do
    let tilePixels := tile.rows.outRows * tile.columns.outCols
    let scratchBytes ← someOr
      ((checkedMul tilePixels blocksPerPixel).bind fun value => checkedMul value sourceBlockBytes)
      .invalidShape (accumulatorOverflow shape kernels "tile scratch size")
    let next ← someOr (checkedAdd scratchOffset scratchBytes) .invalidShape
      (accumulatorOverflow shape kernels "scratch partition")
    let (tiles, total) ← stageTiles shape kernels blocksPerPixel sourceBlockBytes next rest
    return ({ scratchOffset, scratchBytes
              outputRow := tile.rows.outFirst, outputColumn := tile.columns.outFirst
              outputRows := tile.rows.outRows, outputColumns := tile.columns.outCols } :: tiles, total)

namespace ConvPlan

def accumulatorOutputLayout (plan : ConvPlan) : Planner AccumulatorOutputLayout := do
  refuseUnless plan.shape.precision.writesAccumulators .unsupportedSemantics
    "staged accumulator output requires Int8Accumulator precision"
  let sourceBlockBytes := plan.shape.outputAtomBytes
  let paddedBytesPerPixel := plan.shape.paddedOutChannels * plan.shape.precision.outputElementBytes
  let blocksPerPixel := paddedBytesPerPixel ⌈/⌉ sourceBlockBytes
  let (tiles, scratchOffset) ←
    stageTiles plan.shape plan.kernels blocksPerPixel sourceBlockBytes 0 plan.tiles
  let allocated := plan.shape.outputScratchBytes plan.kernels
  refuseUnless (scratchOffset = allocated) .internal
    s!"staged accumulator tiles must partition the full scratch allocation: {scratchOffset} bytes planned against {allocated} allocated"
  return { tiles, scratchBytes := scratchOffset }

end ConvPlan

/-! ### Compaction -/

/-- The chunks of one tile, row by row. -/
def tileCopies (outputWidth bytesPerPixel sourceBlockBytes : Nat) (tile : AccumulatorOutputTile) :
    List ChunkCopy :=
  (List.range tile.outputRows).flatMap fun row =>
    (List.range tile.outputColumns).flatMap fun column =>
      pixelCopies tile.scratchOffset (tile.scratchOffset + tile.scratchBytes)
        (tile.outputRows * tile.outputColumns) bytesPerPixel sourceBlockBytes
        (row * tile.outputColumns + column)
        ((tile.outputRow + row) * outputWidth + tile.outputColumn + column)

/-- The loop over the tiles. The error is an early return. -/
def compactTiles (scratch : Bytes) (outputWidth bytesPerPixel sourceBlockBytes : Nat) :
    List AccumulatorOutputTile → Nat × Bytes → Except (Nat × Bytes) (Nat × Bytes)
  | [], result => .ok result
  | tile :: tiles, result =>
    match checkedAdd tile.scratchOffset tile.scratchBytes with
    | none => .error result
    | some tileEnd =>
      if scratch.length < tileEnd then .error result
      else do
        let result ← ChunkCopy.applyAll scratch
          (tileCopies outputWidth bytesPerPixel sourceBlockBytes tile) result
        compactTiles scratch outputWidth bytesPerPixel sourceBlockBytes tiles result

def compactTiledAccumulatorOutput (scratch : Bytes) (tiles : List AccumulatorOutputTile)
    (outputWidth bytesPerPixel sourceBlockBytes : Nat) (dst : Bytes) : Nat × Bytes :=
  if sourceBlockBytes = 0 ∨ outputWidth = 0 then (0, dst)
  else returned (compactTiles scratch outputWidth bytesPerPixel sourceBlockBytes tiles (0, dst))

end IreeRocket.Conv
