import IreeRocket.Core.AdmissionSound
import IreeRocket.Core.CbufFits
import IreeRocket.Hal.AccumulatorLayout

/-!
# The staged ranges partition the scratch

The areas of a plan's tiles add up to the image, so the ranges laid out tile by tile add up to the
scratch sized from it. Gathering them moves as many bytes as the dense output has and covers each of
them, hence moves each once.
-/

namespace IreeRocket.Conv

open Hal TensorLayout Segments Writes

variable {policy : PlanningPolicy} {shape : Shape} {kernels : Kernels} {plan : ConvPlan}

/-! ### The scratch of an accepted plan -/

/-- With leading padding below the kernel's extent, an axis grows by at most ten positions. -/
theorem outputWidth_le (hk : KernelFits shape kernels) : shape.outputWidth kernels ≤ shape.width + 10 := by
  have hdiv := Nat.div_le_self
    (shape.width + 2 * (shape.kernelProgramming kernels).padLeft - kernels.2) shape.stride
  have hpad := hk.padLeft_lt
  have hle := hk.width_le
  have hfits := hk.width_fits
  unfold Shape.outputWidth
  simp only [kernelProgramming_width]
  omega

theorem outputHeight_le (hk : KernelFits shape kernels) :
    shape.outputHeight kernels ≤ shape.height + 10 := by
  have hdiv := Nat.div_le_self
    (shape.height + 2 * (shape.kernelProgramming kernels).padTop - kernels.1) shape.stride
  have hpad := hk.padTop_lt
  have hle := hk.height_le
  have hfits := hk.height_fits
  unfold Shape.outputHeight
  simp only [kernelProgramming_height]
  omega

theorem outputArea_lt (hs : shape.WellFormed policy) (hk : KernelFits shape kernels) :
    shape.outputWidth kernels * shape.outputHeight kernels < 2 ^ 33 := by
  have hwidth := hs.width_lt
  have hheight := hs.height_lt
  have hsurface := hs.surface
  have hexpand : (shape.width + 10) * (shape.height + 10) =
      shape.width * shape.height + 10 * shape.width + 10 * shape.height + 100 := by ring
  have hle := Nat.mul_le_mul (outputWidth_le hk) (outputHeight_le hk)
  omega

theorem Accepted.tryWeightBytes (h : Accepted policy shape kernels plan) :
    ∃ bytes, shape.tryWeightBytes kernels = .ok bytes := by
  cases h with
  | tryNew _ h =>
    obtain ⟨-, -, bytes, -, -, -, hbytes, -⟩ := tryNew_ok.mp h
    exact ⟨bytes, hbytes⟩
  | tryWithCbufBanks _ _ _ h =>
    unfold ConvPlan.tryWithCbufBanks at h
    simp only [bind_ok] at h
    obtain ⟨_, -, _, -, _, -, bytes, hbytes, -⟩ := h
    exact ⟨bytes, hbytes⟩

/-- The entry slabs of a tile's line bound the atoms of a plan. -/
theorem Accepted.cbufAtoms_le (h : Accepted policy shape kernels plan) : shape.cbufAtoms ≤ 8192 := by
  have hs := h.wellFormed
  obtain ⟨cols, hgrid⟩ := h.planned.grid
  obtain ⟨c, hc⟩ := List.exists_mem_of_ne_nil _
    (hgrid.colCovers.ne_nil (shape.outputWidth_pos kernels))
  obtain ⟨r, ht⟩ := hgrid.stacked.exists_mem (shape.outputHeight_pos kernels) hc
  obtain ⟨-, window, -, -, -, hinCols, -⟩ := h.planned.windows hs ht
  have hcols : 0 < c.inCols := hinCols ▸ window.nonempty
  cases hlayout : shape.layout with
  | dense =>
    have hchannels : shape.inChannels ≤ 4 := by
      by_contra hmore
      unfold Shape.layout maxDenseChannels at hlayout
      rw [if_neg hmore] at hlayout
      cases hlayout
    have hatom := shape.precision.channelsPerAtom_pos
    exact (IreeRocket.cbufAtoms_le (show 0 < 4 by decide) (by decide) (by omega)).trans (by decide)
  | surfaces =>
    have hslabs := (h.planned.resident hs ht).slab_base hlayout
    have hle := (Nat.le_mul_of_pos_right (shape.cbufAtoms ⌈/⌉ 4 - 1) hcols).trans hslabs
    exact (ceilDiv_le_iff_le_mul (b := shape.cbufAtoms) (a := 4) (c := 2048) (by decide)).mp (by omega)

/-- What an accumulator precision is. -/
theorem writesAccumulators_ok {precision : Precision} (h : precision.writesAccumulators = true) :
    precision.elementBits = 8 ∧ precision.outputElementBytes = 4 ∧ precision.outChannelGranule = 32 ∧
      precision.channelsPerAtom = 16 ∧ precision.sharesFp16Layout = false := by
  cases precision <;> simp [Precision.writesAccumulators] at h
  simp [Precision.elementBits, Precision.outputElementBytes, Precision.outChannelGranule,
    Precision.channelsPerAtom, Precision.sharesFp16Layout, featureAtomBytes]

/-- A dense accumulator plan has fewer than `2 ^ 28` kernels to program, its coefficients being a
`u32` of bytes. -/
theorem Accepted.programmedKernels_lt (h : Accepted policy shape kernels plan)
    (hacc : shape.precision.writesAccumulators = true) (hdense : shape.depthwise = false) :
    shape.programmedKernels < 2 ^ 28 := by
  obtain ⟨hbits, -, -, hatom, hlayout⟩ := writesAccumulators_ok hacc
  obtain ⟨bytes, hbytes⟩ := h.tryWeightBytes
  have hkernels := h.planned.kernelFits
  have hatoms : shape.featureAtoms ≤ 8192 := (le_quadAtoms _).trans h.cbufAtoms_le
  have hpos := shape.featureAtoms_pos
  have hchannels : shape.weightChannels = shape.featureAtoms * 16 := by
    unfold Shape.weightChannels Shape.paddedChannels
    rw [hlayout, hatom]
    exact wrap32_of_lt (by omega)
  have hprogrammed : shape.programmedKernels < 2 ^ 32 := by
    unfold Shape.programmedKernels
    rw [hdense, hbits]
    exact wrap32_lt _
  have helements : shape.weightChannels * shape.programmedKernels ≤ 2 ^ 17 * 2 ^ 32 :=
    Nat.mul_le_mul (by omega) hprogrammed.le
  set elements := shape.weightChannels * shape.programmedKernels with helements_eq
  have hheight : elements * kernels.1 ≤ 2 ^ 49 * 11 :=
    Nat.mul_le_mul helements hkernels.height_le
  have hwidth : elements * kernels.1 * kernels.2 ≤ 2 ^ 49 * 11 * 11 :=
    Nat.mul_le_mul hheight hkernels.width_le
  unfold Shape.tryWeightBytes at hbytes
  rw [hkernels.tryKernelProgramming] at hbytes
  simp only [bind_ok, Except.ok.injEq, exists_eq_left', refuseUnless_ok, pure_ok, exists_const,
    hdense, Bool.false_eq_true, if_false, hbits, kernelProgramming_height,
    kernelProgramming_width] at hbytes
  obtain ⟨hsmall, -⟩ := hbytes
  rw [← helements_eq, wrap64_of_lt (n := elements * 8) (by omega),
    Nat.mul_div_cancel elements (by decide), wrap64_of_lt (n := elements * kernels.1) (by omega),
    wrap64_of_lt (by omega)] at hsmall
  have htaps : elements ≤ elements * kernels.1 * kernels.2 :=
    (Nat.le_mul_of_pos_right _ hkernels.height_pos).trans
      (Nat.le_mul_of_pos_right _ hkernels.width_pos)
  have hsixteen : 16 * shape.programmedKernels ≤ elements :=
    Nat.mul_le_mul_right _ (by omega)
  omega

/-- The granule an accumulator shape's channels are rounded to. -/
theorem accumulator_granule (hacc : shape.precision.writesAccumulators = true) :
    shape.outChannelGranule = if shape.depthwise then 64 else 32 := by
  obtain ⟨-, -, hgranule, -, -⟩ := writesAccumulators_ok hacc
  unfold Shape.outChannelGranule
  rw [hgranule]

/-- Apart from the one count whose rounding leaves `u32`, the channels of an accumulator plan are few
and the programmed channels hold them. -/
theorem Accepted.outChannels_bounds (h : Accepted policy shape kernels plan)
    (hacc : shape.precision.writesAccumulators = true) :
    (shape.outChannels = 2 ^ 32 - 1 ∧ shape.depthwise = false) ∨ shape.outChannels < 2 ^ 28 := by
  have hs := h.wellFormed
  obtain ⟨hbits, -, -, hatom, -⟩ := writesAccumulators_ok hacc
  cases hdepthwise : shape.depthwise with
  | true =>
    right
    have heq := hs.depthwise_eq hdepthwise
    have hatoms : shape.featureAtoms ≤ 8192 := (le_quadAtoms _).trans h.cbufAtoms_le
    have hceil : shape.inChannels ⌈/⌉ 16 ≤ shape.featureAtoms := by
      unfold Shape.featureAtoms
      rw [hatom]
      exact le_max_left _ _
    have hround := le_ceilDiv_mul shape.inChannels (b := 16) (by decide)
    omega
  | false =>
    have hprogrammed := h.programmedKernels_lt hacc hdepthwise
    have hlt := hs.out_lt
    have hround := le_nextMultipleOf shape.outChannels (b := 2) (by decide)
    have hnext := nextMultipleOf_lt shape.outChannels (b := 2) (by decide)
    unfold Shape.programmedKernels at hprogrammed
    rw [hdepthwise, hbits] at hprogrammed
    by_cases hwrap : nextMultipleOf shape.outChannels 2 < 2 ^ 32
    · right
      have hkeep := wrap32_of_lt hwrap
      simp only [Bool.false_eq_true, if_false, show ¬ (16 ≤ 8) by decide] at hprogrammed
      omega
    · left
      exact ⟨by omega, rfl⟩

theorem nextMultipleOf_max {n granule : Nat} (hpos : 0 < granule) (hsmall : granule ≤ 64)
    (hn : n < 2 ^ 28) : n ≤ max (wrap32 (nextMultipleOf n granule)) granule ∧
      max (wrap32 (nextMultipleOf n granule)) granule ≤ 2 ^ 28 + 64 := by
  have hround := le_nextMultipleOf n hpos
  have hnext := nextMultipleOf_lt n hpos
  rw [wrap32_of_lt (by omega)]
  omega

/-- The programmed channels of an accumulator plan. -/
theorem Accepted.paddedOutChannels_bounds (h : Accepted policy shape kernels plan)
    (hacc : shape.precision.writesAccumulators = true) :
    0 < shape.paddedOutChannels ∧ shape.paddedOutChannels ≤ 2 ^ 28 + 64 ∧
      (shape.outChannels ≠ 2 ^ 32 - 1 → shape.outChannels ≤ shape.paddedOutChannels) := by
  have hgranule := accumulator_granule hacc
  have hpos : 0 < shape.outChannelGranule ∧ shape.outChannelGranule ≤ 64 := by
    rw [hgranule]
    split_ifs <;> omega
  refine ⟨hpos.1.trans_le (le_max_right _ _), ?_⟩
  rcases h.outChannels_bounds hacc with ⟨hall, hdense⟩ | hfew
  · refine ⟨?_, fun hne => absurd hall hne⟩
    unfold Shape.paddedOutChannels
    rw [hgranule, hdense, hall]
    decide
  · have hbounds := nextMultipleOf_max hpos.1 hpos.2 hfew
    exact ⟨hbounds.2, fun _ => hbounds.1⟩

/-- Bytes a pixel occupies in the staged ranges: whole atoms for the programmed channels. -/
def stagedPixelBytes (shape : Shape) : Nat :=
  (shape.paddedOutChannels * shape.precision.outputElementBytes) ⌈/⌉ shape.outputAtomBytes *
    shape.outputAtomBytes

theorem outputAtomBytes_bounds (hacc : shape.precision.writesAccumulators = true) :
    0 < shape.outputAtomBytes ∧ shape.outputAtomBytes ≤ 256 := by
  obtain ⟨-, hbytes, hgranule, -, -⟩ := writesAccumulators_ok hacc
  unfold Shape.outputAtomBytes outputChannelBlockBytes featureAtomBytes
  rw [hgranule, hbytes]
  split_ifs <;> omega

theorem outputScratchBytes_eq (shape : Shape) (kernels : Kernels) :
    shape.outputScratchBytes kernels =
      shape.outputWidth kernels * shape.outputHeight kernels * stagedPixelBytes shape := by
  unfold Shape.outputScratchBytes stagedPixelBytes
  exact Nat.mul_assoc _ _ _

theorem Accepted.stagedPixelBytes_bounds (h : Accepted policy shape kernels plan)
    (hacc : shape.precision.writesAccumulators = true) :
    0 < stagedPixelBytes shape ∧ stagedPixelBytes shape < 2 ^ 31 - 2 ^ 29 ∧
      shape.paddedOutChannels * shape.precision.outputElementBytes ≤ stagedPixelBytes shape := by
  obtain ⟨hpos, hle, -⟩ := h.paddedOutChannels_bounds hacc
  obtain ⟨-, hbytes, -, -, -⟩ := writesAccumulators_ok hacc
  obtain ⟨hatom, hatom_le⟩ := outputAtomBytes_bounds hacc
  have hround := le_ceilDiv_mul (shape.paddedOutChannels * shape.precision.outputElementBytes) hatom
  have hlt := ceilDiv_mul_lt (shape.paddedOutChannels * shape.precision.outputElementBytes) hatom
  unfold stagedPixelBytes
  rw [hbytes] at hround hlt ⊢
  omega

/-- The scratch of an accepted plan is a `usize`. -/
theorem Accepted.outputScratchBytes_lt (h : Accepted policy shape kernels plan)
    (hacc : shape.precision.writesAccumulators = true) :
    shape.outputScratchBytes kernels < 2 ^ 64 := by
  have harea := outputArea_lt h.wellFormed h.planned.kernelFits
  obtain ⟨-, hpixel, -⟩ := h.stagedPixelBytes_bounds hacc
  rw [outputScratchBytes_eq]
  exact (Nat.mul_le_mul harea.le hpixel.le).trans_lt (by decide)

/-! ### The ranges -/

/-- A staged tile has its tile's rectangle and a range of the rectangle's pixels. -/
structure Stages (shape : Shape) (staged : AccumulatorOutputTile) (t : Tile2D) : Prop where
  row : staged.outputRow = t.rows.outFirst
  rows : staged.outputRows = t.rows.outRows
  column : staged.outputColumn = t.columns.outFirst
  columns : staged.outputColumns = t.columns.outCols
  bytes : staged.scratchBytes = t.rows.outRows * t.columns.outCols * stagedPixelBytes shape

/-- The pixels of a tile. -/
def Tile2D.area (t : Tile2D) : Nat := t.rows.outRows * t.columns.outCols

/-- The loop never refuses while the ranges stay in `usize`, and lays them end to end. -/
theorem stageTiles_ok (kernels : Kernels) (hatom : 0 < shape.outputAtomBytes)
    (hpixel : 0 < stagedPixelBytes shape) (tiles : List Tile2D) : ∀ (offset : Nat), (∀ t ∈ tiles, 0 < t.area) →
      offset + (tiles.map Tile2D.area).sum * stagedPixelBytes shape < 2 ^ 64 →
      ∃ staged, stageTiles shape kernels
          ((shape.paddedOutChannels * shape.precision.outputElementBytes) ⌈/⌉ shape.outputAtomBytes)
          shape.outputAtomBytes offset tiles =
        .ok (staged, offset + (tiles.map Tile2D.area).sum * stagedPixelBytes shape) ∧
        List.Forall₂ (Stages shape) staged tiles ∧
        Covers AccumulatorOutputTile.scratchOffset AccumulatorOutputTile.scratchBytes offset staged
          (offset + (tiles.map Tile2D.area).sum * stagedPixelBytes shape) := by
  induction tiles with
  | nil =>
    intro offset _ _
    simp only [List.map_nil, List.sum_nil, Nat.zero_mul, Nat.add_zero]
    exact ⟨[], rfl, .nil, .nil offset⟩
  | cons tile tiles ih =>
    intro offset hpos hfits
    rw [List.map_cons, List.sum_cons, Nat.add_mul, ← Nat.add_assoc] at hfits ⊢
    set bytes := tile.area * stagedPixelBytes shape with hbytes
    obtain ⟨staged, hrun, hstages, hcovers⟩ :=
      ih (offset + bytes) (fun t ht => hpos t (List.mem_cons_of_mem _ ht)) hfits
    set blocks :=
      (shape.paddedOutChannels * shape.precision.outputElementBytes) ⌈/⌉ shape.outputAtomBytes
    have hassoc : tile.area * blocks * shape.outputAtomBytes = bytes := Nat.mul_assoc _ _ _
    have hfirst : tile.area * blocks ≤ bytes := by
      rw [← hassoc]
      exact Nat.le_mul_of_pos_right _ hatom
    have hsize : ((checkedMul tile.area blocks).bind fun value =>
        checkedMul value shape.outputAtomBytes) = some bytes := by
      unfold checkedMul
      rw [if_pos (by omega), Option.bind_some, hassoc, if_pos (by omega)]
    have hnext : checkedAdd offset bytes = some (offset + bytes) := if_pos (by omega)
    have hbytes_pos : 0 < bytes := Nat.mul_pos (hpos tile List.mem_cons_self) hpixel
    refine ⟨⟨offset, bytes, tile.rows.outFirst, tile.columns.outFirst, tile.rows.outRows,
      tile.columns.outCols⟩ :: staged, ?_, ?_, ?_⟩
    · rw [stageTiles]
      simp only [bind_ok, someOr_ok, pure_ok]
      exact ⟨bytes, hsize, offset + bytes, hnext, _, hrun, rfl⟩
    · exact .cons ⟨rfl, rfl, rfl, rfl, rfl⟩ hstages
    · exact .cons' rfl hbytes_pos hcovers

/-- The areas of an accepted plan's tiles add up to the image. -/
theorem Accepted.sum_area (h : Accepted policy shape kernels plan) :
    (plan.tiles.map Tile2D.area).sum = shape.outputWidth kernels * shape.outputHeight kernels := by
  obtain ⟨cols, hgrid⟩ := h.planned.grid
  have harea : (plan.tiles.map Tile2D.area).sum =
      shape.outputHeight kernels * (cols.map ColumnTile.outCols).sum :=
    hgrid.stacked.sum_area Tile2D.rows Tile2D.columns (fun _ _ => rfl) (fun _ _ => rfl)
  have hwidth := hgrid.colCovers.add_sum
  rw [Nat.zero_add] at hwidth
  rw [harea, hwidth, Nat.mul_comm]

/-- What the layout of a plan's tiles is. -/
structure StagesExactly (plan : ConvPlan) (layout : AccumulatorOutputLayout) : Prop where
  stages : List.Forall₂ (Stages plan.shape) layout.tiles plan.tiles
  contiguous : Covers AccumulatorOutputTile.scratchOffset AccumulatorOutputTile.scratchBytes 0
    layout.tiles layout.scratchBytes
  disjoint : layout.tiles.Pairwise fun a b => a.scratchOffset + a.scratchBytes ≤ b.scratchOffset
  total : layout.scratchBytes = plan.shape.outputScratchBytes plan.kernels
  fits : layout.scratchBytes < 2 ^ 64

theorem Accepted.accumulatorOutputLayout (h : Accepted policy shape kernels plan)
    (hacc : shape.precision.writesAccumulators = true) :
    ∃ layout, plan.accumulatorOutputLayout = .ok layout ∧ StagesExactly plan layout := by
  obtain ⟨hatom, -⟩ := outputAtomBytes_bounds hacc
  obtain ⟨hpixel, -, -⟩ := h.stagedPixelBytes_bounds hacc
  have htotal := h.outputScratchBytes_lt hacc
  have hsum : (plan.tiles.map Tile2D.area).sum * stagedPixelBytes shape =
      shape.outputScratchBytes kernels := by
    rw [h.sum_area, outputScratchBytes_eq]
  have hpos : ∀ t ∈ plan.tiles, 0 < t.area := by
    intro t ht
    obtain ⟨hrows, hcols⟩ := (tiles_partition_output h).nonempty t ht
    exact Nat.mul_pos hrows hcols
  obtain ⟨staged, hrun, hstages, hcovers⟩ := stageTiles_ok kernels hatom hpixel plan.tiles
    0 hpos (by rw [Nat.zero_add, hsum]; exact htotal)
  rw [Nat.zero_add, hsum] at hrun hcovers
  have hshape := h.planned.shape_eq
  have hkernels := h.planned.kernels_eq
  refine ⟨⟨staged, shape.outputScratchBytes kernels⟩, ?_, ?_⟩
  · unfold ConvPlan.accumulatorOutputLayout
    rw [hshape, hkernels]
    simp only [bind_ok, refuseUnless_ok, pure_ok, exists_const]
    exact ⟨hacc, _, hrun, rfl, rfl⟩
  · refine ⟨?_, hcovers, hcovers.pairwise, ?_, htotal⟩
    · rw [hshape]
      exact hstages
    · rw [hshape, hkernels]

/-! ### The gathered output -/

/-- The output pixel `(r, c)` lies in the staged tile's rectangle. -/
def AccumulatorOutputTile.Holds (t : AccumulatorOutputTile) (r c : Nat) : Prop :=
  Within t.outputRow t.outputRows r ∧ Within t.outputColumn t.outputColumns c

instance (t : AccumulatorOutputTile) (r c : Nat) : Decidable (t.Holds r c) :=
  inferInstanceAs (Decidable (_ ∧ _))

/-- Where the scratch holds a byte of a pixel of a staged tile. -/
def AccumulatorOutputTile.source (t : AccumulatorOutputTile) (block row column byte : Nat) : Nat :=
  t.scratchOffset + sourceOffset (t.outputRows * t.outputColumns) block
    (row * t.outputColumns + column) byte

/-- Staged tiles whose rectangles split an image of `width` by `height` pixels, and whose ranges hold
`blocks` blocks of `block` bytes a pixel. -/
structure SplitsImage (tiles : List AccumulatorOutputTile) (width height blocks block : Nat) : Prop where
  exactly_one : ∀ r c, r < height → c < width → tiles.countP (fun t => decide (t.Holds r c)) = 1
  inside : ∀ t ∈ tiles, t.outputRow + t.outputRows ≤ height ∧ t.outputColumn + t.outputColumns ≤ width
  bytes : ∀ t ∈ tiles, t.scratchBytes = t.outputRows * t.outputColumns * (blocks * block)

theorem countP_of_forall₂ {α β : Type} {R : α → β → Prop} {p : α → Bool} {q : β → Bool}
    {xs : List α} {ys : List β} (h : List.Forall₂ R xs ys) (hpq : ∀ x y, R x y → p x = q y) :
    xs.countP p = ys.countP q := by
  induction h with
  | nil => rfl
  | cons hxy _ ih => rw [List.countP_cons, List.countP_cons, ih, hpq _ _ hxy]

theorem StagesExactly.splitsImage {layout : AccumulatorOutputLayout}
    (h : StagesExactly plan layout) (hplan : PartitionsOutput plan.shape plan.kernels plan.tiles) :
    SplitsImage layout.tiles (plan.shape.outputWidth plan.kernels)
      (plan.shape.outputHeight plan.kernels)
      ((plan.shape.paddedOutChannels * plan.shape.precision.outputElementBytes) ⌈/⌉
        plan.shape.outputAtomBytes) plan.shape.outputAtomBytes where
  exactly_one r c hr hc := by
    rw [← hplan.exactly_one r c hr hc]
    apply countP_of_forall₂ h.stages
    intro staged t hstages
    apply decide_eq_decide.mpr
    unfold AccumulatorOutputTile.Holds Tile2D.Holds
    rw [hstages.row, hstages.rows, hstages.column, hstages.columns]
  inside staged hstaged := by
    obtain ⟨t, ht, hstages⟩ := mem_of_forall₂ h.stages hstaged
    rw [hstages.row, hstages.rows, hstages.column, hstages.columns]
    exact hplan.inside t ht
  bytes staged hstaged := by
    obtain ⟨t, ht, hstages⟩ := mem_of_forall₂ h.stages hstaged
    rw [hstages.bytes, hstages.rows, hstages.columns]
    rfl

section Compaction

variable {tiles : List AccumulatorOutputTile} {width height blocks block bytesPerPixel : Nat}

theorem mem_tileCopies (hblock : 0 < block) {tile : AccumulatorOutputTile} {copy : ChunkCopy} :
    copy ∈ tileCopies width bytesPerPixel block tile ↔
      ∃ row < tile.outputRows, ∃ column < tile.outputColumns, ∃ i, block * i < bytesPerPixel ∧ copy =
        { source := tile.scratchOffset + (i * (tile.outputRows * tile.outputColumns) +
            (row * tile.outputColumns + column)) * block
          sourceEnd := tile.scratchOffset + tile.scratchBytes
          target := ((tile.outputRow + row) * width + tile.outputColumn + column) * bytesPerPixel +
            i * block
          length := min (bytesPerPixel - i * block) block } := by
  unfold tileCopies
  simp only [List.mem_flatMap, List.mem_range, mem_pixelCopies hblock]

theorem sum_flatMap_const {α β : Type} (f : α → List β) (g : β → Nat) {n : Nat} (l : List α)
    (h : ∀ a ∈ l, ((f a).map g).sum = n) : ((l.flatMap f).map g).sum = l.length * n := by
  induction l with
  | nil => simp
  | cons a l ih =>
    rw [List.flatMap_cons, List.map_append, List.sum_append, h a List.mem_cons_self,
      ih fun b hb => h b (List.mem_cons_of_mem _ hb), List.length_cons, Nat.add_mul, Nat.one_mul,
      Nat.add_comm]

theorem sum_tileCopies (hblock : 0 < block) (tile : AccumulatorOutputTile) :
    ((tileCopies width bytesPerPixel block tile).map ChunkCopy.length).sum =
      tile.outputRows * tile.outputColumns * bytesPerPixel := by
  unfold tileCopies
  rw [sum_flatMap_const (n := tile.outputColumns * bytesPerPixel), List.length_range, Nat.mul_assoc]
  intro row _
  rw [sum_flatMap_const (n := bytesPerPixel), List.length_range]
  intro column _
  exact sum_pixelCopies _ _ _ _ hblock _ _

/-- The pixel of a tile lies in the image. -/
theorem SplitsImage.pixel_lt (h : SplitsImage tiles width height blocks block)
    {t : AccumulatorOutputTile} (ht : t ∈ tiles) {row column : Nat} (hrow : row < t.outputRows)
    (hcolumn : column < t.outputColumns) :
    (t.outputRow + row) * width + t.outputColumn + column < width * height := by
  obtain ⟨hrows, hcolumns⟩ := h.inside t ht
  have hle : (t.outputRow + row + 1) * width ≤ height * width := Nat.mul_le_mul_right _ (by omega)
  rw [Nat.add_mul _ 1, Nat.one_mul, Nat.mul_comm height] at hle
  omega

/-- The tile a pixel of the image lies in. -/
def tileAt (tiles : List AccumulatorOutputTile) (r c : Nat) : Option AccumulatorOutputTile :=
  tiles.find? fun t => decide (t.Holds r c)

theorem SplitsImage.tileAt_eq (h : SplitsImage tiles width height blocks block)
    {t : AccumulatorOutputTile} (ht : t ∈ tiles) {r c : Nat} (hholds : t.Holds r c) :
    tileAt tiles r c = some t := by
  obtain ⟨hrows, hcolumns⟩ := h.inside t ht
  have hr := hholds.1.2
  have hc := hholds.2.2
  have hone := h.exactly_one r c (by omega) (by omega)
  unfold tileAt
  cases hfind : tiles.find? (fun t => decide (t.Holds r c)) with
  | none =>
    have hnone := List.find?_eq_none.mp hfind t ht
    exact absurd (decide_eq_true hholds) hnone
  | some u =>
    have hu := List.find?_some (p := fun t : AccumulatorOutputTile => decide (t.Holds r c))
      hfind
    rw [eq_of_countP_eq_one hone ht (List.mem_of_find?_eq_some hfind) (decide_eq_true hholds) hu]

/-- The byte the gathered output has at `k`: its pixel's byte in its tile's range. -/
def gatheredByte (scratch : Bytes) (tiles : List AccumulatorOutputTile)
    (width bytesPerPixel block k : Nat) : Option UInt8 :=
  let r := k / bytesPerPixel / width
  let c := k / bytesPerPixel % width
  (tileAt tiles r c).bind fun t =>
    scratch[t.source block (r - t.outputRow) (c - t.outputColumn) (k % bytesPerPixel)]?

theorem SplitsImage.gatheredByte_eq (h : SplitsImage tiles width height blocks block)
    (scratch : Bytes) {t : AccumulatorOutputTile} (ht : t ∈ tiles) {row column byte : Nat}
    (hrow : row < t.outputRows) (hcolumn : column < t.outputColumns) (hbyte : byte < bytesPerPixel) :
    gatheredByte scratch tiles width bytesPerPixel block
        (((t.outputRow + row) * width + t.outputColumn + column) * bytesPerPixel + byte) =
      scratch[t.source block row column byte]? := by
  obtain ⟨hrows, hcolumns⟩ := h.inside t ht
  have hpos : 0 < bytesPerPixel := by omega
  have hpixel : (((t.outputRow + row) * width + t.outputColumn + column) * bytesPerPixel + byte) /
      bytesPerPixel = (t.outputRow + row) * width + (t.outputColumn + column) := by
    rw [Nat.mul_comm, Nat.mul_add_div hpos, Nat.div_eq_of_lt hbyte, Nat.add_zero, Nat.add_assoc]
  have hmod : (((t.outputRow + row) * width + t.outputColumn + column) * bytesPerPixel + byte) %
      bytesPerPixel = byte := by
    rw [Nat.mul_comm, Nat.mul_add_mod, Nat.mod_eq_of_lt hbyte]
  have hr : ((t.outputRow + row) * width + (t.outputColumn + column)) / width = t.outputRow + row := by
    rw [Nat.mul_comm, Nat.mul_add_div (by omega), Nat.div_eq_of_lt (by omega), Nat.add_zero]
  have hc : ((t.outputRow + row) * width + (t.outputColumn + column)) % width =
      t.outputColumn + column := by
    rw [Nat.mul_comm, Nat.mul_add_mod, Nat.mod_eq_of_lt (by omega)]
  have hholds : t.Holds (t.outputRow + row) (t.outputColumn + column) :=
    ⟨⟨by omega, by omega⟩, ⟨by omega, by omega⟩⟩
  unfold gatheredByte
  dsimp only
  rw [hpixel, hmod, hr, hc, h.tileAt_eq ht hholds, Option.bind_some, Nat.add_sub_cancel_left,
    Nat.add_sub_cancel_left]

/-- The chunks of every tile in order. -/
def stagedCopies (tiles : List AccumulatorOutputTile) (width bytesPerPixel block : Nat) :
    List ChunkCopy :=
  tiles.flatMap (tileCopies width bytesPerPixel block)

theorem mem_stagedCopies (hblock : 0 < block) {copy : ChunkCopy} :
    copy ∈ stagedCopies tiles width bytesPerPixel block ↔
      ∃ t ∈ tiles, ∃ row < t.outputRows, ∃ column < t.outputColumns, ∃ i,
        block * i < bytesPerPixel ∧ copy =
          { source := t.scratchOffset + (i * (t.outputRows * t.outputColumns) +
              (row * t.outputColumns + column)) * block
            sourceEnd := t.scratchOffset + t.scratchBytes
            target := ((t.outputRow + row) * width + t.outputColumn + column) * bytesPerPixel +
              i * block
            length := min (bytesPerPixel - i * block) block } := by
  unfold stagedCopies
  simp only [List.mem_flatMap, mem_tileCopies hblock]

/-- A chunk stays in its tile's range and in the image. -/
theorem SplitsImage.copy_inRange (h : SplitsImage tiles width height blocks block)
    (hblock : 0 < block) (hle : bytesPerPixel ≤ blocks * block) {copy : ChunkCopy}
    (hcopy : copy ∈ stagedCopies tiles width bytesPerPixel block) :
    copy.InRange (width * height * bytesPerPixel) := by
  obtain ⟨t, ht, row, hrow, column, hcolumn, i, hi, rfl⟩ := (mem_stagedCopies hblock).mp hcopy
  have hpixel := h.pixel_lt ht hrow hcolumn
  have hlocal : row * t.outputColumns + column < t.outputRows * t.outputColumns := by
    have hrows := Nat.mul_le_mul_right t.outputColumns (show row + 1 ≤ t.outputRows from hrow)
    rw [Nat.add_mul, Nat.one_mul] at hrows
    omega
  have hblocks : i < blocks :=
    lt_of_mul_lt_mul_left (hi.trans_le (hle.trans_eq (Nat.mul_comm _ _))) (Nat.zero_le block)
  set pixels := t.outputRows * t.outputColumns
  have hsurface : (i + 1) * pixels ≤ blocks * pixels := Nat.mul_le_mul_right _ hblocks
  rw [Nat.add_mul, Nat.one_mul] at hsurface
  have hrange : (i * pixels + (row * t.outputColumns + column) + 1) * block ≤ t.scratchBytes := by
    have hbytes : t.scratchBytes = blocks * pixels * block := calc
      t.scratchBytes = pixels * (blocks * block) := h.bytes t ht
      _ = blocks * pixels * block := by rw [← Nat.mul_assoc, Nat.mul_comm pixels]
    rw [hbytes]
    exact Nat.mul_le_mul_right _ (by omega)
  rw [Nat.add_mul _ 1, Nat.one_mul] at hrange
  have htarget : _ * bytesPerPixel + bytesPerPixel ≤ _ := pixel_bytes_le le_rfl hpixel
  rw [Nat.mul_comm] at hi
  constructor
  · dsimp only
    omega
  · dsimp only
    omega

/-- The copies write toward the gathered bytes. -/
theorem SplitsImage.toward (h : SplitsImage tiles width height blocks block) (hblock : 0 < block)
    (hle : bytesPerPixel ≤ blocks * block) {scratch : Bytes} {length : Nat}
    (hscratch : ∀ t ∈ tiles, t.scratchOffset + t.scratchBytes ≤ scratch.length)
    (hlength : width * height * bytesPerPixel ≤ length) :
    (∀ copy ∈ stagedCopies tiles width bytesPerPixel block,
      copy.InRange length ∧ copy.sourceEnd ≤ scratch.length) ∧
    Toward (fun dst : Bytes => dst.length = length) (fun dst k => dst[k]?)
      (fun dst copy => ChunkCopy.apply scratch dst copy)
      (fun copy k => copy.target ≤ k ∧ k < copy.target + copy.length)
      (gatheredByte scratch tiles width bytesPerPixel block)
      (stagedCopies tiles width bytesPerPixel block) := by
  have hrange : ∀ copy ∈ stagedCopies tiles width bytesPerPixel block,
      copy.InRange length ∧ copy.sourceEnd ≤ scratch.length := by
    intro copy hcopy
    obtain ⟨hsource, htarget⟩ := h.copy_inRange hblock hle hcopy
    refine ⟨⟨hsource, htarget.trans hlength⟩, ?_⟩
    obtain ⟨t, ht, row, hrow, column, hcolumn, i, hi, rfl⟩ := (mem_stagedCopies hblock).mp hcopy
    exact hscratch t ht
  refine ⟨hrange, ChunkCopy.toward hrange ?_⟩
  intro copy hcopy k hk
  obtain ⟨t, ht, row, hrow, column, hcolumn, i, hi, rfl⟩ := (mem_stagedCopies hblock).mp hcopy
  dsimp only at hk ⊢
  rw [Nat.mul_comm] at hi
  have hgathered := h.gatheredByte_eq scratch ht hrow hcolumn
    (show i * block + k < bytesPerPixel by omega)
  rw [Nat.add_assoc (_ * bytesPerPixel) (i * block) k, hgathered]
  unfold AccumulatorOutputTile.source
  rw [sourceOffset_chunk (by omega), Nat.add_assoc]

/-- Every byte of the image lies in a chunk. -/
theorem SplitsImage.exists_copy (h : SplitsImage tiles width height blocks block)
    (hblock : 0 < block) {k : Nat} (hk : k < width * height * bytesPerPixel) :
    ∃ copy ∈ stagedCopies tiles width bytesPerPixel block,
      copy.target ≤ k ∧ k < copy.target + copy.length := by
  have hpos : 0 < bytesPerPixel := Nat.pos_of_ne_zero (by rintro rfl; omega)
  have hpixel : k / bytesPerPixel < width * height := (Nat.div_lt_iff_lt_mul hpos).mpr hk
  have hwidth : 0 < width := Nat.pos_of_ne_zero (by rintro rfl; omega)
  have hr : k / bytesPerPixel / width < height := by
    apply (Nat.div_lt_iff_lt_mul hwidth).mpr
    rw [Nat.mul_comm]
    exact hpixel
  have hc := Nat.mod_lt (k / bytesPerPixel) hwidth
  have hone := h.exactly_one _ _ hr hc
  obtain ⟨t, ht, hholds⟩ := List.countP_pos_iff.mp (hone ▸ Nat.one_pos)
  obtain ⟨⟨hr1, hr2⟩, hc1, hc2⟩ : t.Holds _ _ := of_decide_eq_true hholds
  have hbyte := Nat.mod_lt k hpos
  have hchunk : k % bytesPerPixel / block * block + k % bytesPerPixel % block = k % bytesPerPixel :=
    Nat.div_add_mod' _ _
  have hlane := Nat.mod_lt (k % bytesPerPixel) hblock
  have hsplit : k / bytesPerPixel / width * width + k / bytesPerPixel % width = k / bytesPerPixel :=
    Nat.div_add_mod' _ _
  have hk_eq : k / bytesPerPixel * bytesPerPixel + k % bytesPerPixel = k := Nat.div_add_mod' _ _
  refine ⟨_, (mem_stagedCopies hblock).mpr ⟨t, ht, k / bytesPerPixel / width - t.outputRow, by omega,
    k / bytesPerPixel % width - t.outputColumn, by omega, k % bytesPerPixel / block, ?_, rfl⟩, ?_⟩
  · rw [Nat.mul_comm]
    omega
  · have htarget : (t.outputRow + (k / bytesPerPixel / width - t.outputRow)) * width +
        t.outputColumn + (k / bytesPerPixel % width - t.outputColumn) = k / bytesPerPixel := by
      rw [Nat.add_sub_cancel' hr1]
      omega
    dsimp only
    rw [htarget]
    omega

/-- The chunks' lengths add up to the bytes of the tiles' pixels. -/
theorem sum_stagedCopies (hblock : 0 < block) (tiles : List AccumulatorOutputTile) :
    ((stagedCopies tiles width bytesPerPixel block).map ChunkCopy.length).sum =
      (tiles.map fun t => t.outputRows * t.outputColumns).sum * bytesPerPixel := by
  unfold stagedCopies
  induction tiles with
  | nil => simp
  | cons t tiles ih =>
    rw [List.flatMap_cons, List.map_append, List.sum_append, sum_tileCopies hblock, ih, List.map_cons,
      List.sum_cons, Nat.add_mul]

theorem applyAll_append (scratch : Bytes) (first second : List ChunkCopy) (result : Nat × Bytes) :
    ChunkCopy.applyAll scratch (first ++ second) result =
      ChunkCopy.applyAll scratch first result >>= ChunkCopy.applyAll scratch second := by
  induction first generalizing result with
  | nil => rfl
  | cons copy first ih =>
    obtain ⟨written, dst⟩ := result
    rw [List.cons_append, ChunkCopy.applyAll, ChunkCopy.applyAll]
    split_ifs
    · exact ih _
    · rfl

/-- With every range inside the scratch, the loop over the tiles is one run of copies. -/
theorem compactTiles_eq {scratch : Bytes} (tiles : List AccumulatorOutputTile) :
    (∀ t ∈ tiles, t.scratchOffset + t.scratchBytes ≤ scratch.length ∧
      t.scratchOffset + t.scratchBytes < 2 ^ 64) → ∀ result,
    compactTiles scratch width bytesPerPixel block tiles result =
      ChunkCopy.applyAll scratch (stagedCopies tiles width bytesPerPixel block) result := by
  induction tiles with
  | nil => intro _ _; rfl
  | cons t tiles ih =>
    intro hrange result
    obtain ⟨hlength, hfits⟩ := hrange t List.mem_cons_self
    have htail := ih fun u hu => hrange u (List.mem_cons_of_mem _ hu)
    have hend : checkedAdd t.scratchOffset t.scratchBytes =
        some (t.scratchOffset + t.scratchBytes) := if_pos hfits
    rw [compactTiles, hend]
    simp only [if_neg (Nat.not_lt.mpr hlength), htail]
    exact (applyAll_append scratch _ _ result).symm

end Compaction

/-- Gathering the layout's ranges moves every byte of a dense output of `bytesPerPixel` bytes a pixel
once, each from its own tile's surfaces, and touches no other byte. -/
structure CompactsExactly (plan : ConvPlan) (layout : AccumulatorOutputLayout) (bytesPerPixel : Nat) :
    Prop where
  once : ∀ k < plan.shape.outputWidth plan.kernels * plan.shape.outputHeight plan.kernels *
      bytesPerPixel,
    (stagedCopies layout.tiles (plan.shape.outputWidth plan.kernels) bytesPerPixel
      plan.shape.outputAtomBytes).countP (fun copy => decide (Within copy.target copy.length k)) = 1
  gathers : ∀ scratch dst : Bytes, layout.scratchBytes ≤ scratch.length →
    plan.shape.outputWidth plan.kernels * plan.shape.outputHeight plan.kernels * bytesPerPixel ≤
      dst.length →
    ∃ out, compactTiledAccumulatorOutput scratch layout.tiles (plan.shape.outputWidth plan.kernels)
        bytesPerPixel plan.shape.outputAtomBytes dst =
        (plan.shape.outputWidth plan.kernels * plan.shape.outputHeight plan.kernels * bytesPerPixel,
          out) ∧
      out.length = dst.length ∧
      (∀ t ∈ layout.tiles, ∀ row < t.outputRows, ∀ column < t.outputColumns,
        ∀ byte < bytesPerPixel,
        out[((t.outputRow + row) * plan.shape.outputWidth plan.kernels + t.outputColumn + column) *
            bytesPerPixel + byte]? =
          scratch[t.source plan.shape.outputAtomBytes row column byte]?) ∧
      ∀ k, plan.shape.outputWidth plan.kernels * plan.shape.outputHeight plan.kernels *
        bytesPerPixel ≤ k → out[k]? = dst[k]?

/-- The areas of the staged tiles are the areas of the plan's. -/
theorem sum_area_of_stages {staged : List AccumulatorOutputTile} {tiles : List Tile2D}
    (h : List.Forall₂ (Stages shape) staged tiles) :
    (staged.map fun t => t.outputRows * t.outputColumns).sum = (tiles.map Tile2D.area).sum := by
  induction h with
  | nil => rfl
  | cons ht _ ih =>
    rw [List.map_cons, List.map_cons, List.sum_cons, List.sum_cons, ih, ht.rows, ht.columns]
    rfl

theorem StagesExactly.compactsExactly {layout : AccumulatorOutputLayout} {bytesPerPixel : Nat}
    (h : StagesExactly plan layout) (hplan : PartitionsOutput plan.shape plan.kernels plan.tiles)
    (harea : (plan.tiles.map Tile2D.area).sum =
      plan.shape.outputWidth plan.kernels * plan.shape.outputHeight plan.kernels)
    (hblock : 0 < plan.shape.outputAtomBytes) (hle : bytesPerPixel ≤ stagedPixelBytes plan.shape) :
    CompactsExactly plan layout bytesPerPixel := by
  have hsplits := h.splitsImage hplan
  have hsum : ((stagedCopies layout.tiles (plan.shape.outputWidth plan.kernels) bytesPerPixel
      plan.shape.outputAtomBytes).map ChunkCopy.length).sum =
      plan.shape.outputWidth plan.kernels * plan.shape.outputHeight plan.kernels *
        bytesPerPixel := by
    rw [sum_stagedCopies hblock, sum_area_of_stages h.stages, harea]
  have hends : ∀ t ∈ layout.tiles, t.scratchOffset + t.scratchBytes ≤ layout.scratchBytes :=
    fun t ht => (h.contiguous.mem ht).2.2
  refine ⟨fun k hk => ?_, fun scratch dst hscratch hdst => ?_⟩
  · apply countP_eq_one_of_sum (n := plan.shape.outputWidth plan.kernels *
      plan.shape.outputHeight plan.kernels * bytesPerPixel) ?_ hsum ?_ hk
    · intro copy hcopy
      exact (hsplits.copy_inRange hblock hle hcopy).2
    · intro p hp
      exact hsplits.exists_copy hblock hp
  · obtain ⟨hrange, htoward⟩ := hsplits.toward hblock hle
      (fun t ht => (hends t ht).trans hscratch) hdst
    refine ⟨_, ?_, htoward.foldl_inv rfl, ?_, ?_⟩
    · unfold compactTiledAccumulatorOutput
      have hwidth := plan.shape.outputWidth_pos plan.kernels
      rw [if_neg (by omega), compactTiles_eq layout.tiles fun t ht =>
        ⟨(hends t ht).trans hscratch, (hends t ht).trans_lt h.fits⟩,
        ChunkCopy.applyAll_ok fun copy hcopy => (hrange copy hcopy).1, hsum, Nat.zero_add]
      rfl
    · intro t ht row hrow column hcolumn byte hbyte
      have hpixel := hsplits.pixel_lt ht hrow hcolumn
      have hlast : _ * bytesPerPixel + bytesPerPixel ≤ _ := pixel_bytes_le le_rfl hpixel
      rw [htoward.foldl_hit rfl (hsplits.exists_copy hblock (by omega))]
      exact hsplits.gatheredByte_eq scratch ht hrow hcolumn hbyte
    · intro k hk
      refine htoward.foldl_miss rfl fun copy hcopy hcovers => ?_
      have hinside := (hsplits.copy_inRange hblock hle hcopy).2
      omega

/-- **The staged layout always exists and compacts exactly.** For every accumulator plan, whatever
its tiling: the tiles' ranges lie end to end in tile order, disjoint, and add up to the scratch sized
from the image; and gathering them writes every byte of the dense output once, from its own tile's
surfaces, at any pixel width up to the programmed one. The logical pixel is such a width, except for
the one channel count whose rounding leaves `u32`, which the channel ceilings refuse. -/
theorem accumulator_output_exact (h : Accepted policy shape kernels plan)
    (hacc : shape.precision.writesAccumulators = true) :
    ∃ layout, plan.accumulatorOutputLayout = .ok layout ∧ StagesExactly plan layout ∧
      (∀ bytesPerPixel ≤ shape.paddedOutChannels * shape.precision.outputElementBytes,
        CompactsExactly plan layout bytesPerPixel) ∧
      (shape.outChannels ≠ 2 ^ 32 - 1 → CompactsExactly plan layout
        (shape.outChannels * shape.precision.outputElementBytes)) := by
  obtain ⟨layout, hlayout, hstages⟩ := h.accumulatorOutputLayout hacc
  obtain ⟨hblock, -⟩ := outputAtomBytes_bounds hacc
  obtain ⟨-, -, hpadded⟩ := h.stagedPixelBytes_bounds hacc
  obtain ⟨-, -, hlogical⟩ := h.paddedOutChannels_bounds hacc
  have hpartition := tiles_partition_output h
  have harea := h.sum_area
  have hshape := h.planned.shape_eq
  have hkernels := h.planned.kernels_eq
  subst hshape hkernels
  have hcompacts : ∀ bytesPerPixel ≤ plan.shape.paddedOutChannels *
      plan.shape.precision.outputElementBytes, CompactsExactly plan layout bytesPerPixel :=
    fun _ hle => hstages.compactsExactly hpartition harea hblock (hle.trans hpadded)
  exact ⟨layout, hlayout, hstages, hcompacts,
    fun hne => hcompacts _ (Nat.mul_le_mul_right _ (hlogical hne))⟩

/-- A 64x64 accumulator image that the planner cuts into two rows of tiles. -/
def stagedShape : Shape :=
  { width := 64, height := 64, stride := 1, inChannels := 128, outChannels := 20
    precision := .int8Accumulator ⟨0, 0, 0, ⟨1, 0⟩⟩, padding := none, activation := .none
    depthwise := false }

def stagedPlan : ConvPlan :=
  { shape := stagedShape, kernels := (3, 3), dataBanks := 11, weightBanks := 1
    outputColumnWidths := [64]
    tiles := [⟨⟨0, 43, 0, 44, 1⟩, ⟨0, 64, 0, 64, 1⟩⟩, ⟨⟨43, 21, 42, 22, 0⟩, ⟨0, 64, 0, 64, 1⟩⟩] }

theorem stagedPlan_accepted : Accepted .default stagedShape (3, 3) stagedPlan := by
  apply Accepted.tryNew
  · exact .withPrecision (by decide) (by decide) (by decide)
      (show Shape.tryWithPrecision .default 64 64 1 128 20 (.int8Accumulator ⟨0, 0, 0, ⟨1, 0⟩⟩) =
        .ok stagedShape from rfl)
  · decide +kernel

theorem accumulator_output_exact_twoTiles :
    ∃ layout, stagedPlan.accumulatorOutputLayout = .ok layout ∧ StagesExactly stagedPlan layout ∧
      CompactsExactly stagedPlan layout 80 := by
  obtain ⟨layout, hlayout, hstages, -, hlogical⟩ := accumulator_output_exact stagedPlan_accepted rfl
  exact ⟨layout, hlayout, hstages, hlogical (by decide)⟩

end IreeRocket.Conv
