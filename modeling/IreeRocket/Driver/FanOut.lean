import IreeRocket.Driver.ReplicaInputs
import IreeRocket.Hal.StagedOutput

/-!
# Gathering a fanned-out dispatch

Every context runs its own tiles on its own copy of the output scratch, and `queue_execute` gathers the
dense output tile by tile, each tile from the scratch of the context that ran it. What a tile's job
computes is a parameter: any function of the bytes its window holds (`TileJob`). In whatever order the
jobs complete across the contexts, the gathered output is the one a single context would give.
-/

namespace IreeRocket.FanOut

open Conv TensorLayout Writes Segments
open Driver (Status)

/-! ### The gather -/

/-- The pixels of a rectangle, row by row. -/
def rectPixels (outputWidth firstRow rows firstColumn columns : Nat) : List Nat :=
  (List.range rows).flatMap fun row =>
    (List.range columns).map fun column =>
      (firstRow + row) * outputWidth + (firstColumn + column)

/-- `compact_atomic_output_rect`. -/
def compactAtomicOutputRect (scratch : Bytes) (sourcePixelCount outputWidth firstRow rows firstColumn
    columns bytesPerPixel sourceBlockBytes : Nat) (dst : Bytes) : Nat × Bytes :=
  if sourceBlockBytes = 0 ∨ outputWidth = 0 then (0, dst)
  else
    returned (ChunkCopy.applyAll scratch
      (imageCopies scratch sourcePixelCount bytesPerPixel sourceBlockBytes
        (rectPixels outputWidth firstRow rows firstColumn columns)) (0, dst))

/-- The output rectangle of a tile and its index in the plan. -/
structure TileRect where
  index : Nat
  row : Nat
  rows : Nat
  column : Nat
  columns : Nat
  deriving DecidableEq, Repr

def tileRect (t : Tile2D) (index : Nat) : TileRect :=
  ⟨index, t.rows.outFirst, t.rows.outRows, t.columns.outFirst, t.columns.outCols⟩

/-- What `queue_execute` needs to compact a dispatch's output. -/
structure OutputCompaction where
  outputOffset : Nat
  outputLength : Nat
  sourcePixelCount : Nat
  outputPixelCount : Nat
  outputWidth : Nat
  bytesPerPixel : Nat
  sourceBlockBytes : Nat
  sourceTiles : Option (List AccumulatorOutputTile)
  tileContext : List Nat
  tileRects : List TileRect

namespace OutputCompaction

variable (oc : OutputCompaction)

/-- One tile of the gather, from the scratch of its context. -/
def gatherTile (source : Bytes) (tile : TileRect) (dst : Bytes) : Nat × Bytes :=
  match oc.sourceTiles with
  | some tiles =>
    compactTiledAccumulatorOutput source ((tiles.drop tile.index).take 1) oc.outputWidth
      oc.bytesPerPixel oc.sourceBlockBytes dst
  | none =>
    compactAtomicOutputRect source oc.sourcePixelCount oc.outputWidth tile.row tile.rows tile.column
      tile.columns oc.bytesPerPixel oc.sourceBlockBytes dst

/-- The bytes written and the destination. `scratches` are the contexts' scratches, the home one first. -/
def compact (scratches : Nat → Bytes) (dst : Bytes) : Nat × Bytes :=
  if oc.tileRects ≠ [] then
    (oc.tileRects.zip oc.tileContext).foldl (fun (written, dst) (tile, context) =>
      let (more, dst) := oc.gatherTile (scratches context) tile dst
      (written + more, dst)) (0, dst)
  else
    match oc.sourceTiles with
    | some tiles =>
      compactTiledAccumulatorOutput (scratches 0) tiles oc.outputWidth oc.bytesPerPixel
        oc.sourceBlockBytes dst
    | none =>
      compactAtomicOutput (scratches 0) oc.sourcePixelCount oc.outputPixelCount oc.bytesPerPixel
        oc.sourceBlockBytes dst

/-- The compaction into the output buffer. A short binding or a short count is `INTERNAL`. -/
def run (scratches : Nat → Bytes) (output : Bytes) : Except Status Bytes := do
  let expected := oc.outputPixelCount * oc.bytesPerPixel
  unlessErr (expected ≤ oc.outputLength) Status.internal
  let (written, dst) := oc.compact scratches (load output oc.outputOffset expected)
  unlessErr (written = expected) Status.internal
  return store output oc.outputOffset dst

end OutputCompaction

/-- The compaction of a plan's dispatch fanned out to `replicas` siblings. -/
def plannedCompaction (plan : ConvPlan) (replicas outputOffset outputLength bytesPerPixel
    sourceBlockBytes : Nat) (sourceTiles : Option (List AccumulatorOutputTile)) : OutputCompaction :=
  let width := plan.shape.outputWidth plan.kernels
  let pixels := width * plan.shape.outputHeight plan.kernels
  { outputOffset, outputLength, bytesPerPixel, sourceBlockBytes, sourceTiles
    sourcePixelCount := pixels
    outputPixelCount := pixels
    outputWidth := width
    tileContext := if replicas = 0 then [] else tileContexts plan.tiles.length replicas
    tileRects := if replicas = 0 then [] else plan.tiles.zipIdx.map fun (t, i) => tileRect t i }

/-! ### One tile of the gather -/

/-- The byte of a pixel in the dense output. -/
def denseByte (width bytesPerPixel row column byte : Nat) : Nat :=
  (row * width + column) * bytesPerPixel + byte

/-- A call gathered a tile: the tile's pixels have the values, every other pixel what it had. -/
structure Gathered (t : Tile2D) (width bytesPerPixel : Nat) (value : Nat → Nat → Nat → Option UInt8)
    (dst : Bytes) (result : Nat × Bytes) : Prop where
  written : result.1 = t.area * bytesPerPixel
  length : result.2.length = dst.length
  inside : ∀ row column byte, t.Holds row column → byte < bytesPerPixel →
    result.2[denseByte width bytesPerPixel row column byte]? = value row column byte
  outside : ∀ row column byte, column < width → ¬ t.Holds row column → byte < bytesPerPixel →
    result.2[denseByte width bytesPerPixel row column byte]? =
      dst[denseByte width bytesPerPixel row column byte]?

theorem mem_rectPixels {width firstRow rows firstColumn columns pixel : Nat} :
    pixel ∈ rectPixels width firstRow rows firstColumn columns ↔ ∃ row column,
      Within firstRow rows row ∧ Within firstColumn columns column ∧ pixel = row * width + column := by
  unfold rectPixels
  simp only [List.mem_flatMap, List.mem_map, List.mem_range]
  constructor
  · rintro ⟨y, hy, x, hx, rfl⟩
    exact ⟨firstRow + y, firstColumn + x, ⟨by omega, by omega⟩, ⟨by omega, by omega⟩, rfl⟩
  · rintro ⟨row, column, ⟨hrow, hrow'⟩, ⟨hcolumn, hcolumn'⟩, rfl⟩
    refine ⟨row - firstRow, by omega, column - firstColumn, by omega, ?_⟩
    rw [Nat.add_sub_cancel' hrow, Nat.add_sub_cancel' hcolumn]

theorem length_rectPixels (width firstRow rows firstColumn columns : Nat) :
    (rectPixels width firstRow rows firstColumn columns).length = rows * columns := by
  unfold rectPixels
  simp [List.length_flatMap]

/-- Pixels of one image are told apart by their row and column. -/
theorem pixel_inj {width row column row' column' : Nat} (hcolumn : column < width)
    (hcolumn' : column' < width) (h : row * width + column = row' * width + column') :
    row = row' ∧ column = column' := by
  have hdiv := congrArg (· / width) h
  have hmod := congrArg (· % width) h
  simp only [Nat.mul_comm _ width, Nat.mul_add_div (by omega : 0 < width), Nat.mul_add_mod,
    Nat.div_eq_of_lt hcolumn, Nat.div_eq_of_lt hcolumn', Nat.mod_eq_of_lt hcolumn,
    Nat.mod_eq_of_lt hcolumn', Nat.add_zero] at hdiv hmod
  exact ⟨hdiv, hmod⟩

/-- The bytes of two pixels do not meet. -/
theorem bytes_apart {bytesPerPixel p q byte : Nat} (hbyte : byte < bytesPerPixel) (hne : p ≠ q) :
    p * bytesPerPixel + byte < q * bytesPerPixel ∨
      q * bytesPerPixel + bytesPerPixel ≤ p * bytesPerPixel + byte := by
  rcases Nat.lt_or_gt_of_ne hne with hlt | hlt
  · exact .inl (BandGeometry.lane_lt hlt hbyte)
  · have hle := Nat.mul_le_mul_right bytesPerPixel (show q + 1 ≤ p from hlt)
    rw [Nat.add_mul, Nat.one_mul] at hle
    exact .inr (by omega)

/-- A tile of an image in atomic surfaces. -/
theorem rect_gathered {t : Tile2D} {width height bytesPerPixel block surfaces : Nat}
    {source dst : Bytes} (hblock : 0 < block) (hwidth : 0 < width)
    (hinside : t.rows.outFirst + t.rows.outRows ≤ height ∧
      t.columns.outFirst + t.columns.outCols ≤ width)
    (hle : bytesPerPixel ≤ surfaces * block)
    (hsource : surfaces * (width * height) * block ≤ source.length)
    (hdst : dst.length = width * height * bytesPerPixel) :
    Gathered t width bytesPerPixel
      (fun row column byte =>
        source[sourceOffset (width * height) block (row * width + column) byte]?) dst
      (compactAtomicOutputRect source (width * height) width t.rows.outFirst t.rows.outRows
        t.columns.outFirst t.columns.outCols bytesPerPixel block dst) := by
  have hpixels : ∀ pixel ∈ rectPixels width t.rows.outFirst t.rows.outRows t.columns.outFirst
      t.columns.outCols,
      pixel < width * height ∧ pixel * bytesPerPixel + bytesPerPixel ≤ dst.length := by
    intro pixel hpixel
    obtain ⟨row, column, ⟨-, hrow⟩, ⟨-, hcolumn⟩, rfl⟩ := mem_rectPixels.mp hpixel
    have hlt : row * width + column < height * width :=
      BandGeometry.lane_lt (by omega) (by omega)
    rw [Nat.mul_comm height] at hlt
    exact ⟨hlt, pixel_bytes_le hdst.ge hlt⟩
  obtain ⟨out, hrun, hlength, hread, hkept⟩ := gather_spec hblock hpixels hle hsource 0
  have hcall : compactAtomicOutputRect source (width * height) width t.rows.outFirst t.rows.outRows
      t.columns.outFirst t.columns.outCols bytesPerPixel block dst = (t.area * bytesPerPixel, out) := by
    unfold compactAtomicOutputRect
    rw [if_neg (by omega), hrun, length_rectPixels, Nat.zero_add]
    rfl
  rw [hcall]
  refine ⟨rfl, hlength, ?_, ?_⟩
  · intro row column byte hholds hbyte
    exact hread _ (mem_rectPixels.mpr ⟨row, column, hholds.1, hholds.2, rfl⟩) byte hbyte
  · intro row column byte hcolumn hnot hbyte
    refine hkept _ fun pixel hpixel => ?_
    obtain ⟨row', column', hrow', hcolumn', rfl⟩ := mem_rectPixels.mp hpixel
    refine bytes_apart hbyte fun heq => hnot ?_
    have hlast := hcolumn'.2
    obtain ⟨rfl, rfl⟩ := pixel_inj hcolumn (by omega) heq
    exact ⟨hrow', hcolumn'⟩

/-- The one tile a gather call is given. -/
theorem take_one {α : Type} {l : List α} {i : Nat} {a : α} (h : l[i]? = some a) :
    (l.drop i).take 1 = [a] := by
  obtain ⟨hi, rfl⟩ := List.getElem?_eq_some_iff.mp h
  rw [List.drop_eq_getElem_cons hi, List.take_succ_cons, List.take_zero]

/-- A staged tile, from its range. -/
theorem staged_gathered {tiles : List AccumulatorOutputTile} {width height blocks block bytesPerPixel i : Nat}
    (h : SplitsImage tiles width height blocks block) (hblock : 0 < block) (hwidth : 0 < width)
    (hle : bytesPerPixel ≤ blocks * block) {source dst : Bytes}
    (hsource : ∀ t ∈ tiles, t.scratchOffset + t.scratchBytes ≤ source.length ∧
      t.scratchOffset + t.scratchBytes < 2 ^ 64)
    (hdst : dst.length = width * height * bytesPerPixel) {staged : AccumulatorOutputTile}
    (hstaged : tiles[i]? = some staged) {t : Tile2D} (hrow : staged.outputRow = t.rows.outFirst)
    (hrows : staged.outputRows = t.rows.outRows) (hcolumn : staged.outputColumn = t.columns.outFirst)
    (hcolumns : staged.outputColumns = t.columns.outCols) :
    Gathered t width bytesPerPixel
      (fun row column byte => source[staged.source block (row - t.rows.outFirst)
        (column - t.columns.outFirst) byte]?) dst
      (compactTiledAccumulatorOutput source ((tiles.drop i).take 1) width bytesPerPixel block dst) := by
  have hmem : staged ∈ tiles := List.mem_of_getElem? hstaged
  have hcopies : stagedCopies [staged] width bytesPerPixel block =
      tileCopies width bytesPerPixel block staged := by
    unfold stagedCopies
    rw [List.flatMap_cons, List.flatMap_nil, List.append_nil]
  have hsub : ∀ copy ∈ tileCopies width bytesPerPixel block staged,
      copy ∈ stagedCopies tiles width bytesPerPixel block :=
    fun copy hcopy => List.mem_flatMap.mpr ⟨staged, hmem, hcopy⟩
  obtain ⟨hrange, htoward⟩ := h.toward hblock hle (fun t ht => (hsource t ht).1) hdst.ge
  have htile : Toward (fun out : Bytes => out.length = dst.length) (fun out k => out[k]?)
      (fun out copy => ChunkCopy.apply source out copy)
      (fun copy k => copy.target ≤ k ∧ k < copy.target + copy.length)
      (gatheredByte source tiles width bytesPerPixel block)
      (tileCopies width bytesPerPixel block staged) :=
    ⟨fun copy hcopy => htoward.inv copy (hsub copy hcopy),
      fun copy hcopy => htoward.hit copy (hsub copy hcopy),
      fun copy hcopy => htoward.miss copy (hsub copy hcopy)⟩
  have hcall : compactTiledAccumulatorOutput source ((tiles.drop i).take 1) width bytesPerPixel block
      dst = (t.area * bytesPerPixel, (tileCopies width bytesPerPixel block staged).foldl
        (fun out copy => ChunkCopy.apply source out copy) dst) := by
    unfold compactTiledAccumulatorOutput
    rw [if_neg (by omega), take_one hstaged, compactTiles_eq [staged] (by
      intro u hu
      rw [List.mem_singleton.mp hu]
      exact hsource staged hmem), hcopies,
      ChunkCopy.applyAll_ok fun copy hcopy => (hrange copy (hsub copy hcopy)).1,
      sum_tileCopies hblock, Nat.zero_add, hrows, hcolumns]
    rfl
  rw [hcall]
  refine ⟨rfl, htile.foldl_inv rfl, ?_, ?_⟩
  · intro row column byte hholds hbyte
    obtain ⟨⟨hlow, hhigh⟩, hlow', hhigh'⟩ := hholds
    have hoffset : denseByte width bytesPerPixel row column byte =
        ((staged.outputRow + (row - t.rows.outFirst)) * width + staged.outputColumn +
          (column - t.columns.outFirst)) * bytesPerPixel + byte := by
      unfold denseByte
      rw [hrow, hcolumn, Nat.add_sub_cancel' hlow, Nat.add_assoc (row * width),
        Nat.add_sub_cancel' hlow']
    have hlane := Nat.mod_lt byte hblock
    have hsplit : byte / block * block + byte % block = byte := Nat.div_add_mod' byte block
    have hcover : ∃ copy ∈ tileCopies width bytesPerPixel block staged,
        copy.target ≤ denseByte width bytesPerPixel row column byte ∧
          denseByte width bytesPerPixel row column byte < copy.target + copy.length := by
      refine ⟨_, (mem_tileCopies hblock).mpr ⟨row - t.rows.outFirst, by omega,
        column - t.columns.outFirst, by omega, byte / block, ?_, rfl⟩, ?_, ?_⟩
      · rw [Nat.mul_comm]
        omega
      · rw [hoffset]
        dsimp only
        omega
      · rw [hoffset]
        dsimp only
        omega
    rw [htile.foldl_hit rfl hcover, hoffset,
      h.gatheredByte_eq source hmem (by omega) (by omega) hbyte]
  · intro row column byte hcolumn_lt hnot hbyte
    refine htile.foldl_miss rfl fun copy hcopy hcovers => hnot ?_
    obtain ⟨y, hy, x, hx, j, hj, rfl⟩ := (mem_tileCopies hblock).mp hcopy
    obtain ⟨-, hcolumns_le⟩ := h.inside staged hmem
    rw [Nat.mul_comm] at hj
    unfold denseByte at hcovers
    rw [Nat.add_assoc _ staged.outputColumn x] at hcovers
    dsimp only at hcovers
    obtain ⟨rfl, rfl⟩ : row = staged.outputRow + y ∧ column = staged.outputColumn + x := by
      by_contra hne
      rcases bytes_apart (q := (staged.outputRow + y) * width + (staged.outputColumn + x)) hbyte
        fun heq => hne (pixel_inj hcolumn_lt (by omega) heq) with hlt | hle
      · omega
      · omega
    exact ⟨⟨by omega, by omega⟩, ⟨by omega, by omega⟩⟩

/-! ### The whole gather -/

/-- The calls one after another, with the sum of what they report. -/
def gatherAll {ι : Type} (call : ι → Bytes → Nat × Bytes) (items : List ι) (result : Nat × Bytes) :
    Nat × Bytes :=
  items.foldl (fun (written, dst) item =>
    let (more, dst) := call item dst
    (written + more, dst)) result

/-- Calls that gather tiles of which no two share a pixel leave every tile's values. -/
theorem gatherAll_spec {ι : Type} {call : ι → Bytes → Nat × Bytes} {tile : ι → Tile2D}
    {value : ι → Nat → Nat → Nat → Option UInt8} {width height bytesPerPixel bytes : Nat} {items : List ι}
    (hcall : ∀ item ∈ items, ∀ dst : Bytes, dst.length = bytes →
      Gathered (tile item) width bytesPerPixel (value item) dst (call item dst))
    (hone : ∀ row column, row < height → column < width →
      items.countP (fun item => decide ((tile item).Holds row column)) ≤ 1) :
    ∀ written (dst : Bytes), dst.length = bytes →
      ∃ out, gatherAll call items (written, dst) =
          (written + (items.map fun item => (tile item).area).sum * bytesPerPixel, out) ∧
        out.length = bytes ∧
        ∀ row column byte, row < height → column < width → byte < bytesPerPixel →
          (∀ item ∈ items, (tile item).Holds row column →
            out[denseByte width bytesPerPixel row column byte]? = value item row column byte) ∧
          ((∀ item ∈ items, ¬ (tile item).Holds row column) →
            out[denseByte width bytesPerPixel row column byte]? =
              dst[denseByte width bytesPerPixel row column byte]?) := by
  induction items with
  | nil =>
    intro written dst hdst
    refine ⟨dst, by simp [gatherAll], hdst, fun row column byte _ _ _ => ⟨?_, fun _ => rfl⟩⟩
    intro item hitem
    cases hitem
  | cons item items ih =>
    intro written dst hdst
    have hfirst := hcall item List.mem_cons_self dst hdst
    obtain ⟨out, hrun, hlength, hout⟩ := ih
      (fun other hother => hcall other (List.mem_cons_of_mem _ hother))
      (fun row column hrow hcolumn => by
        have hcount := hone row column hrow hcolumn
        rw [List.countP_cons] at hcount
        omega)
      (written + (call item dst).1) (call item dst).2 (hfirst.length.trans hdst)
    refine ⟨out, ?_, hlength, fun row column byte hrow hcolumn hbyte => ?_⟩
    · unfold gatherAll at hrun ⊢
      rw [List.foldl_cons, List.map_cons, List.sum_cons, Nat.add_mul, ← Nat.add_assoc,
        ← hfirst.written]
      exact hrun
    · obtain ⟨hin, hnone⟩ := hout row column byte hrow hcolumn hbyte
      have hcount := hone row column hrow hcolumn
      rw [List.countP_cons] at hcount
      constructor
      · intro other hother hholds
        rcases List.mem_cons.mp hother with rfl | hother
        · -- No later tile has the pixel, so it keeps what this call wrote.
          rw [if_pos (decide_eq_true hholds)] at hcount
          have hzero : items.countP (fun item => decide ((tile item).Holds row column)) = 0 := by
            omega
          rw [hnone fun later hlater hlaterHolds =>
            List.countP_eq_zero.mp hzero later hlater (decide_eq_true hlaterHolds)]
          exact hfirst.inside row column byte hholds hbyte
        · exact hin other hother hholds
      · intro hnot
        rw [hnone fun later hlater => hnot later (List.mem_cons_of_mem _ hlater)]
        exact hfirst.outside row column byte hcolumn (hnot item List.mem_cons_self) hbyte

end IreeRocket.FanOut
