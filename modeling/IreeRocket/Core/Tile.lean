import IreeRocket.Core.Geometry
import IreeRocket.Lib.Segments

/-!
# Row and column tiles

How the planner cuts one axis of the output: a tile from its bounds, the uniform split, the greedy
filler that takes as many output rows as fit a row capacity, and the pass that moves the row
boundaries of a dense tiling to input rows whose byte offset is a whole feature atom.

Loops over output rows are structural recursions. The greedy filler's `while` takes at least one
output row a round, so as many rounds as there are rows left are enough.
-/

namespace IreeRocket.Conv

open Segments

structure Tile where
  outFirst : Nat
  outRows : Nat
  inFirst : Nat
  inRows : Nat
  padTop : Nat
  deriving DecidableEq, Repr

structure ColumnTile where
  outFirst : Nat
  outCols : Nat
  inFirst : Nat
  inCols : Nat
  padLeft : Nat
  deriving DecidableEq, Repr

structure Tile2D where
  rows : Tile
  columns : ColumnTile
  deriving DecidableEq, Repr

namespace Tile

def fromBounds (shape : Shape) (kernels : Kernels) (outFirst outRows : Nat) : Tile :=
  let kernel := shape.kernelProgramming kernels
  let padding := kernel.padTop
  let stride := shape.stride
  let inFirst := shape.tileInFirst kernels outFirst
  let lastTap := (outFirst + outRows - 1) * stride + kernel.height - 1
  let inLast := min (lastTap - padding) (shape.height - 1)
  let exact := inLast - inFirst + 1
  -- The vendor reads at least a full stride block an output row, never less than `exact`.
  let inRows := min (max exact (outRows * stride)) (shape.height - inFirst)
  let projectedFirst := outFirst * stride
  { outFirst, outRows, inFirst, inRows, padTop := padding - projectedFirst }

/-- The rows the uniform split gives tile `index`. -/
def splitRows (outputHeight tiles index : Nat) : Nat :=
  outputHeight / tiles + if index < outputHeight % tiles then 1 else 0

/-- The loop of `split` from tile `index` on, with `rest` tiles to go. -/
def splitFrom (shape : Shape) (kernels : Kernels) (tiles : Nat) : Nat → Nat → Nat → List Tile
  | _, _, 0 => []
  | index, outFirst, rest + 1 =>
    let outRows := splitRows (shape.outputHeight kernels) tiles index
    fromBounds shape kernels outFirst outRows ::
      splitFrom shape kernels tiles (index + 1) (outFirst + outRows) rest

def split (shape : Shape) (kernels : Kernels) (tiles : Nat) : Planner (List Tile) := do
  let outputHeight := shape.outputHeight kernels
  assertThat (1 ≤ tiles ∧ tiles ≤ outputHeight)
    s!"tile count must be between 1 and the {outputHeight} output rows"
  return splitFrom shape kernels tiles 0 0 tiles

/-- Input rows a grain of `outRows` output rows charges, from the full, unclipped kernel span. -/
def capacityRows (shape : Shape) (kernels : Kernels) (outFirst outRows : Nat) : Nat :=
  let kernel := shape.kernelProgramming kernels
  let inFirst := shape.tileInFirst kernels outFirst
  let lastTap := (outFirst + outRows - 1) * shape.stride + kernel.height - 1
  let unclippedInLast := lastTap - kernel.padTop
  max (unclippedInLast - inFirst + 1) (outRows * shape.stride)

/-- `(1..=n).rev().find(|count| fits(count))`. -/
def findDown (fits : Nat → Bool) : Nat → Option Nat
  | 0 => none
  | n + 1 => if fits (n + 1) then some (n + 1) else findDown fits n

/-- The `while out_first < output_height` loop, with `fuel` rounds to go. -/
def greedyFrom (shape : Shape) (kernels : Kernels) (maxInputRows : Nat) :
    Nat → Nat → Option (List Tile)
  | 0, outFirst => if outFirst < shape.outputHeight kernels then none else some []
  | fuel + 1, outFirst =>
    if outFirst < shape.outputHeight kernels then do
      let remaining := shape.outputHeight kernels - outFirst
      let outRows ← findDown (fun outRows =>
        capacityRows shape kernels outFirst outRows ≤ maxInputRows) remaining
      let rest ← greedyFrom shape kernels maxInputRows fuel (outFirst + outRows)
      return fromBounds shape kernels outFirst outRows :: rest
    else some []

def splitGreedyToCapacity (shape : Shape) (kernels : Kernels) (maxInputRows : Nat) :
    Option (List Tile) :=
  let outputHeight := shape.outputHeight kernels
  let whole := fromBounds shape kernels 0 outputHeight
  if whole.inRows ≤ maxInputRows then some [whole]
  else greedyFrom shape kernels maxInputRows outputHeight 0

/-- `Tile::split(shape, kernels, 1)[0]`: one tile always passes the count's assertion. -/
def whole (shape : Shape) (kernels : Kernels) : Tile :=
  fromBounds shape kernels 0 (shape.outputHeight kernels)

end Tile

namespace ColumnTile

def fromOutputRange (shape : Shape) (kernels : Kernels) (outFirst outCols : Nat) :
    Planner ColumnTile := do
  let outputWidth := shape.outputWidth kernels
  let outEnd := outFirst + outCols
  assertThat (0 < outCols ∧ outEnd ≤ outputWidth)
    s!"tile output columns {outFirst}..{outEnd} fall outside the {outputWidth}-column output"
  let kernel := shape.kernelProgramming kernels
  let projectedFirst := outFirst * shape.stride
  let inFirst := projectedFirst - kernel.padLeft
  let lastTap := (outFirst + outCols - 1) * shape.stride + kernel.width - 1
  let inLast := min (lastTap - kernel.padLeft) (shape.width - 1)
  let exact := inLast - inFirst + 1
  let spansFullRow := outFirst = 0 ∧ outFirst + outCols = outputWidth
  let inCols :=
    -- A tile that is the whole row takes the whole row, past its last tap.
    if spansFullRow then shape.width - inFirst
    else min (max exact (outCols * shape.stride)) (shape.width - inFirst)
  return { outFirst, outCols, inFirst, inCols, padLeft := kernel.padLeft - projectedFirst }

/-- The `map` of `split`, with the running `out_first`. -/
def splitFrom (shape : Shape) (kernels : Kernels) : Nat → List Nat → Planner (List ColumnTile)
  | _, [] => pure []
  | outFirst, outCols :: widths => do
    let tile ← fromOutputRange shape kernels outFirst outCols
    let rest ← splitFrom shape kernels (outFirst + outCols) widths
    return tile :: rest

def split (shape : Shape) (kernels : Kernels) (outputWidths : List Nat) :
    Planner (List ColumnTile) := do
  assertThat (outputWidths ≠ []) "at least one column tile is required"
  assertThat (outputWidths.sum = shape.outputWidth kernels)
    "column-tile widths must cover the output exactly"
  splitFrom shape kernels 0 outputWidths

end ColumnTile

/-! ### Realigning dense row boundaries -/

/-- The nearest safe boundary to an unsafe `current` in `lower..=upper`, an earlier one first. -/
def nearestSafeBoundary (shape : Shape) (kernels : Kernels) (lower current upper : Nat) : Option Nat :=
  let maxDistance := max (current - lower) (upper - current)
  (List.range' 1 maxDistance).findSome? fun distance =>
    (if distance ≤ current then [current - distance, current + distance]
      else [current + distance]).find? fun candidate =>
        lower ≤ candidate ∧ candidate ≤ upper ∧
          shape.denseFeatureOffsetSafe (shape.tileInFirst kernels candidate)

/-- `current` when it is safe, else the nearest safe boundary between its neighbours. -/
def placeBoundary (shape : Shape) (kernels : Kernels) (lower current upper : Nat) : Option Nat :=
  if shape.denseFeatureOffsetSafe (shape.tileInFirst kernels current) then some current
  else nearestSafeBoundary shape kernels lower current upper

/-- The loop over the inner boundaries: `previous` is the boundary already placed, the list holds
the ones still to place and the output height last. -/
def realignBoundaries (shape : Shape) (kernels : Kernels) : Nat → List Nat → Option (List Nat)
  | previous, current :: next :: rest =>
    let lower := previous + 1
    let upper := next - 1
    if lower > upper then none
    else do
      let placed ← placeBoundary shape kernels lower current upper
      let tail ← realignBoundaries shape kernels placed (next :: rest)
      return placed :: tail
  | _, last => some last

def realignDenseRowTiles (shape : Shape) (kernels : Kernels) (tiles : List Tile) (maxRows : Nat) :
    Option (List Tile) :=
  if shape.layout ≠ .dense ∨ tiles.length ≤ 1 then some tiles
  else do
    let outputHeight := shape.outputHeight kernels
    match tiles.map Tile.outFirst with
    | [] => some tiles
    | first :: starts =>
      let boundaries ← realignBoundaries shape kernels first (starts ++ [outputHeight])
      let realigned := cutAt (fun a b => Tile.fromBounds shape kernels a (b - a)) first boundaries
      if realigned.all (fun tile => tile.inRows ≤ maxRows) then some realigned else none

end IreeRocket.Conv
