import IreeRocket.Hal.Emission

/-!
# When emission succeeds

The planner bounds the rows, the grains, the entries and the banks of every tile it returns; it
does not bound the stride, the width of a column, the pixels of the output surface, a
requantization multiplier or, under the policy that lifts the channel ceilings, the channel counts.
`Encodable` is what is left: the programs of a plan are emitted exactly when it holds
(`emission_ok_iff`). Its column clause speaks of the fewest balanced columns that fit the buffer,
which are the columns every plan uses but those of the captured 256-pixel shapes.
-/

namespace IreeRocket.Hal

open Conv Segments

/-- What the surface step multiplies the pixels of a shared output image by. -/
def surfaceMultiplier (shape : Shape) : Nat :=
  if shape.precision.writesAccumulators then 1
  else if shape.precision.writesFp32Result then 4
  else if shape.precision = .int4 then 8
  else if shape.depthwise then 4
  else 2

/-- A column's extents fit the 11-bit extents of the CNA and the 13-bit notch of the DPU. -/
structure ColumnEncodable (shape : Shape) (kernels : Kernels) (placement : OutputPlacement)
    (c : ColumnTile) : Prop where
  inCols : c.inCols ≤ 2047
  outCols : c.outCols ≤ 2047
  notch : placement = .sharedImage → shape.outputWidth kernels ≤ c.outCols + 8191

/-- The shapes whose plans can be programmed. -/
structure Encodable (policy : PlanningPolicy) (shape : Shape) (kernels : Kernels)
    (placement : OutputPlacement) : Prop where
  stride : shape.stride ≤ 7
  columns : ∀ dataBanks weightBanks cols,
    ConvPlan.cbufPartition policy shape kernels = .ok (dataBanks, weightBanks) →
      FewestColumns shape kernels dataBanks cols →
        ∀ c ∈ cols, ColumnEncodable shape kernels placement c
  surface : placement = .sharedImage →
    shape.outputWidth kernels * shape.outputHeight kernels * surfaceMultiplier shape < 2 ^ 28
  requantization : ∀ q, shape.precision = .int8 q →
    q.multiplier.scale < 2 ^ 16 ∧ q.multiplier.shift < 2 ^ 12
  channels : ChannelsEncodable shape kernels

section Tiles

variable {policy : PlanningPolicy} {shape : Shape} {kernels : Kernels} {plan : ConvPlan}
variable {placement : OutputPlacement} {t : Tile2D}

/-! ### What the planner bounds -/

/-- A tile reads at least one input row an output row, leading padding included. -/
theorem outRows_le (hk : KernelFits shape kernels) (hstride : 0 < shape.stride) {a n : Nat}
    (hn : 0 < n) (hle : a + n ≤ shape.outputHeight kernels) :
    n ≤ (Tile.fromBounds shape kernels a n).inRows +
      (shape.kernelProgramming kernels).padTop := by
  have hlast := lastRow_fits hk hn hle
  have hpad := hk.padTop_lt
  have hsplit : (a + n - 1) * shape.stride = a * shape.stride + (n - 1) * shape.stride := by
    rw [← Nat.add_mul]
    congr 1
    omega
  have hrows : n - 1 ≤ (n - 1) * shape.stride := Nat.le_mul_of_pos_right _ hstride
  have hblock : n ≤ n * shape.stride := Nat.le_mul_of_pos_right _ hstride
  unfold Tile.fromBounds Shape.tileInFirst
  simp only [kernelProgramming_height]
  omega

/-- The output image is at most eleven times as large as the input image. -/
theorem outputPixels_lt (hs : shape.WellFormed policy) (hk : KernelFits shape kernels) :
    shape.outputWidth kernels * shape.outputHeight kernels < 2 ^ 32 := by
  have hsurface := hs.surface
  have hwidth : shape.outputWidth kernels ≤ shape.width + 10 := by
    have := lastColumn_fits hk (shape.outputWidth_pos kernels) (a := 0) (by omega)
    have := Nat.le_mul_of_pos_right (shape.outputWidth kernels - 1) hs.stride_pos
    have := hk.padLeft_lt
    have := hk.width_le
    rw [Nat.zero_add] at *
    omega
  have hheight : shape.outputHeight kernels ≤ shape.height + 10 := by
    have := lastRow_fits hk (shape.outputHeight_pos kernels) (a := 0) (by omega)
    have := Nat.le_mul_of_pos_right (shape.outputHeight kernels - 1) hs.stride_pos
    have := hk.padTop_lt
    have := hk.height_le
    rw [Nat.zero_add] at *
    omega
  have hw := hs.width_lt
  have hh := hs.height_lt
  have hside : shape.width + shape.height ≤ shape.width * shape.height + 1 := by
    obtain ⟨w, hw⟩ := Nat.exists_eq_add_of_lt hs.width_pos
    obtain ⟨h, hh⟩ := Nat.exists_eq_add_of_lt hs.height_pos
    rw [hw, hh]
    have : (0 + w + 1) * (0 + h + 1) = w * h + w + h + 1 := by ring
    omega
  calc shape.outputWidth kernels * shape.outputHeight kernels
      ≤ (shape.width + 10) * (shape.height + 10) := Nat.mul_le_mul hwidth hheight
    _ = shape.width * shape.height + 10 * (shape.width + shape.height) + 100 := by ring
    _ < 2 ^ 32 := by omega

/-- The strides and the entries of a resident tile fit, given the width of its columns. -/
theorem featureStrides_lt (hs : shape.WellFormed policy) {dataBanks : Nat} (hbanks : dataBanks < 12)
    (hres : Resident shape kernels dataBanks t) (hrows : 0 < t.rows.inRows)
    (hbounds : ColumnTile.fromOutputRange shape kernels t.columns.outFirst t.columns.outCols =
      .ok t.columns) (hcols : t.columns.inCols < 2 ^ 11) :
    (featureStrides shape (horizontallyTiled shape kernels t) t).lineStride < 2 ^ 28 ∧
      (featureStrides shape (horizontallyTiled shape kernels t) t).surfStride < 2 ^ 28 ∧
      (featureStrides shape (horizontallyTiled shape kernels t) t).dataEntries < 2 ^ 15 := by
  have hsurface := hs.surface
  have hwidth := hs.width_lt
  unfold featureStrides
  cases hlayout : shape.layout with
  | dense =>
    have hrow : shape.width * (shape.height - 1) ≤ shape.width * shape.height :=
      Nat.mul_le_mul_left _ (Nat.sub_le _ _)
    have hentries := hres.entries
    rw [Nat.mul_comm] at hentries
    simp only
    omega
  | surfaces =>
    have hbytes := hres.surface_bytes hlayout
    have hline : (t.columns.inCols * shape.cbufAtoms) ⌈/⌉ 4 ≤
        t.rows.inRows * ((t.columns.inCols * shape.cbufAtoms) ⌈/⌉ 4) :=
      Nat.le_mul_of_pos_left _ hrows
    have hwrap : wrap32 (t.columns.inCols * shape.cbufAtoms) ⌈/⌉ 4 ≤
        (t.columns.inCols * shape.cbufAtoms) ⌈/⌉ 4 := ceilDiv_mono 4 (Nat.mod_le _ _)
    unfold cbufAtomsPerEntry
    cases htiled : horizontallyTiled shape kernels t with
    | true =>
      simp only
      omega
    | false =>
      have hspan : t.columns.outFirst = 0 ∧ t.columns.outCols = shape.outputWidth kernels := by
        simpa [horizontallyTiled] using htiled
      have hfull := ColumnTile.inCols_of_full hbounds hspan.1 hspan.2
      have hmask := Nat.mod_lt (wrap32 (shape.width * wrap32 (shape.height + 2 ^ 32 - 4)))
        (show 0 < 2 ^ 28 by decide)
      simp only
      omega

/-- The output rows of a planned tile stay inside eleven bits. -/
theorem outRows_lt (hs : shape.WellFormed policy) (hplan : Planned shape kernels plan)
    (ht : t ∈ plan.tiles) : t.rows.outRows < 2 ^ 11 := by
  obtain ⟨cols, hgrid⟩ := hplan.grid
  obtain ⟨⟨hpos, hle⟩, -, -⟩ := hgrid.mem_inside ht
  have hrows := outRows_le hplan.kernelFits hs.stride_pos hpos hle
  rw [← hgrid.rowBounds t ht] at hrows
  have hgrains := (hplan.resident hs ht).grains
  have hpad := hplan.kernelFits.padTop_lt
  have hheight := hplan.kernelFits.height_le
  omega

/-- **What the planner leaves open.** A tile of a plan meets every field bound once it meets the
ones the planner does not check. -/
theorem fieldBounds_of_encodable (hs : shape.WellFormed policy) (hplan : Planned shape kernels plan)
    (hweights : plan.weightBanks ≤ 12) (ht : t ∈ plan.tiles)
    (h : TileEncodable shape kernels placement t) :
    FieldBounds shape kernels t placement (Conv.featureGrains kernels t.rows) plan.dataBanks
      plan.weightBanks := by
  have hk := hplan.kernelFits
  have hres := hplan.resident hs ht
  obtain ⟨⟨rows, -, -, -, hinrows, -⟩, -⟩ := hplan.windows hs ht
  have hrows : 0 < t.rows.inRows := hinrows ▸ rows.nonempty
  obtain ⟨cols, hgrid⟩ := hplan.grid
  obtain ⟨capacity, hcap, -⟩ := (hgrid.fits t ht).rows_le
  have hbanks : plan.dataBanks < 12 := by
    unfold Shape.maxTileInputRowsForWidthAndDataBanks at hcap
    simp only [bind_ok, assertThat_ok, exists_const] at hcap
    exact hcap.1.2
  have hcolbounds : ColumnTile.fromOutputRange shape kernels t.columns.outFirst t.columns.outCols =
      .ok t.columns := by
    obtain ⟨r, c, hc, rfl, -⟩ := hgrid.stacked.mem ht
    exact hgrid.colBounds c hc
  have hpadLeft : t.columns.padLeft ≤ (shape.kernelProgramming kernels).padLeft := by
    unfold ColumnTile.fromOutputRange at hcolbounds
    simp only [bind_ok, assertThat_ok, pure_ok, exists_const] at hcolbounds
    rw [← hcolbounds.2]
    exact Nat.sub_le _ _
  have hpadTop : t.rows.padTop ≤ (shape.kernelProgramming kernels).padTop := by
    rw [hgrid.rowBounds t ht]
    exact Nat.sub_le _ _
  have hpads := hk.padTop_lt
  have hpads' := hk.padLeft_lt
  have hheight := hk.height_le
  have hwidth := hk.width_le
  have hgrains := hres.grains
  obtain ⟨hline, hsurf, hentries⟩ := featureStrides_lt hs hbanks hres hrows hcolbounds h.inCols
  exact { h with
    banks := by omega
    grains := by
      unfold Conv.featureGrains
      simp only [Conv.kernelProgramming]
      omega
    inRows := by omega
    outRows := outRows_lt hs hplan ht
    line := hline
    surf := hsurf
    entries := hentries
    pads := by omega
    kernel := by omega }

/-- A program is emitted exactly when its assertions hold. -/
theorem conv2dTileProgram_ok {featureGrains dataBanks weightBanks : Nat} {program : List RegCmd} :
    conv2dTileProgram shape kernels t placement featureGrains dataBanks weightBanks = .ok program ↔
      (t.columns.inCols ≤ shape.maxTileInputWidth ∧
        (placement = .contiguousTile → shape.precision.writesAccumulators) ∧
        featureGrains ≤ maxFeatureGrains ∧
        (0 < t.rows.outRows ∧ t.rows.outFirst + t.rows.outRows ≤ shape.outputHeight kernels) ∧
        (0 < t.columns.outCols ∧
          t.columns.outFirst + t.columns.outCols ≤ shape.outputWidth kernels) ∧
        wrap32 (t.rows.inRows * shape.cbufInputWidth t.columns.inCols) ≤ maxDataEntries ∧
        (0 < t.rows.inRows ∧ t.rows.inFirst + t.rows.inRows ≤ shape.height) ∧
        (0 < t.columns.inCols ∧ t.columns.inFirst + t.columns.inCols ≤ shape.width)) ∧
      AllFit (convRegisters shape kernels t placement featureGrains dataBanks weightBanks) ∧
      convRegisters shape kernels t placement featureGrains dataBanks weightBanks = program := by
  unfold conv2dTileProgram
  simp only [bind_ok, assertThat_ok, pure_ok, exists_const, convRegisters_length, true_and, and_assoc]

/-- The program of a planned tile is emitted exactly when the fields the planner leaves open fit. -/
theorem tileProgram_ok_iff (hs : shape.WellFormed policy) (hplan : Planned shape kernels plan)
    (hweights : plan.weightBanks ≤ 12)
    (hplacement : placement = .contiguousTile → shape.precision.writesAccumulators)
    (ht : t ∈ plan.tiles) :
    (∃ program, tileProgram plan placement t = .ok program) ↔
      TileEncodable shape kernels placement t := by
  unfold tileProgram
  rw [hplan.shape_eq, hplan.kernels_eq]
  constructor
  · rintro ⟨program, h⟩
    exact tileEncodable_of_fit (conv2dTileProgram_ok.mp h).2.1
  · intro h
    have hbounds := fieldBounds_of_encodable hs hplan hweights ht h
    have hres := hplan.resident hs ht
    obtain ⟨cols, hgrid⟩ := hplan.grid
    obtain ⟨⟨hpos, hle⟩, hcolpos, hcolle⟩ := hgrid.mem_inside ht
    obtain ⟨⟨rows, -, -, h3, h4, -⟩, cols, -, -, g3, g4, -⟩ := hplan.windows hs ht
    refine ⟨_, conv2dTileProgram_ok.mpr ⟨⟨(hgrid.fits t ht).width_le, hplacement, ?_, ⟨hpos, hle⟩,
      ⟨hcolpos, hcolle⟩, ?_, ?_, ?_⟩, convRegisters_fit hbounds, rfl⟩⟩
    · have := hbounds.grains
      unfold maxFeatureGrains
      omega
    · exact (Nat.mod_le _ _).trans hres.entries
    · rw [← h3, ← h4]
      exact ⟨rows.nonempty, rows.inside⟩
    · rw [← g3, ← g4]
      exact ⟨cols.nonempty, cols.inside⟩

/-! ### What the open fields ask of the shape -/

/-- The surface fields of a planned tile fit exactly when the scaled image does. -/
theorem surface_fits_iff (hs : shape.WellFormed policy) (hk : KernelFits shape kernels)
    (hplacement : placement = .contiguousTile → shape.precision.writesAccumulators)
    (hcols : t.columns.outCols < 2 ^ 11) (hrows : t.rows.outRows < 2 ^ 11) :
    ((outputImage placement shape kernels t).surfacePixels < 2 ^ 28 ∧
        surfAdd shape kernels t < 2 ^ 28) ↔
      (placement = .sharedImage →
        shape.outputWidth kernels * shape.outputHeight kernels * surfaceMultiplier shape < 2 ^ 28) := by
  have hpixels := outputPixels_lt hs hk
  have htile : t.columns.outCols * t.rows.outRows < 2 ^ 11 * 2 ^ 11 := Nat.mul_lt_mul'' hcols hrows
  have haccumulated : shape.precision.writesAccumulators → surfAdd shape kernels t < 2 ^ 28 := by
    intro hacc
    have := Nat.mod_le (t.columns.outCols * t.rows.outRows * denseAccumulatorSurfMult) (2 ^ 32)
    unfold surfAdd wrap32 denseAccumulatorSurfMult at *
    simp only [hacc, if_true]
    split_ifs <;> omega
  cases placement with
  | contiguousTile =>
    refine ⟨fun _ h => (nomatch h), fun _ => ⟨?_, haccumulated (hplacement rfl)⟩⟩
    show t.columns.outCols * t.rows.outRows < 2 ^ 28
    omega
  | sharedImage =>
    simp only [outputImage, forall_const]
    rw [wrap32_of_lt hpixels]
    by_cases hacc : shape.precision.writesAccumulators = true
    · have hadd := haccumulated hacc
      simp only [surfaceMultiplier, hacc, if_true, Nat.mul_one]
      exact ⟨And.left, fun h => ⟨h, hadd⟩⟩
    · simp only [surfAdd, surfaceMultiplier, hacc, Bool.false_eq_true, if_false,
        denseAccumulatorSurfMult]
      generalize shape.outputWidth kernels * shape.outputHeight kernels = pixels at *
      unfold wrap32
      split_ifs <;> omega

theorem conversion_fits_iff (shape : Shape) :
    ((outputConversion shape).scale < 2 ^ 16 ∧ (outputConversion shape).shift < 2 ^ 12) ↔
      ∀ q, shape.precision = .int8 q → q.multiplier.scale < 2 ^ 16 ∧ q.multiplier.shift < 2 ^ 12 := by
  unfold outputConversion
  cases shape.precision <;> simp [Precision.writesAccumulators, Precision.quantization]

theorem notch_fits_iff :
    (outputImage placement shape kernels t).notch < 2 ^ 13 ↔
      (placement = .sharedImage → shape.outputWidth kernels ≤ t.columns.outCols + 8191) := by
  cases placement with
  | contiguousTile => simp [outputImage]
  | sharedImage =>
    simp only [outputImage, forall_const]
    omega

/-- The open fields of a planned tile fit exactly when its column and the shape do. -/
theorem tileEncodable_iff (hs : shape.WellFormed policy) (hplan : Planned shape kernels plan)
    (hplacement : placement = .contiguousTile → shape.precision.writesAccumulators)
    (ht : t ∈ plan.tiles) :
    TileEncodable shape kernels placement t ↔
      shape.stride ≤ 7 ∧ ColumnEncodable shape kernels placement t.columns ∧
        (placement = .sharedImage → shape.outputWidth kernels * shape.outputHeight kernels *
          surfaceMultiplier shape < 2 ^ 28) ∧
        (∀ q, shape.precision = .int8 q →
          q.multiplier.scale < 2 ^ 16 ∧ q.multiplier.shift < 2 ^ 12) ∧
        ChannelsEncodable shape kernels := by
  have hrows := outRows_lt hs hplan ht
  constructor
  · intro h
    have hsurface := surface_fits_iff hs hplan.kernelFits hplacement h.outCols hrows
    have hincols := h.inCols
    have houtcols := h.outCols
    exact ⟨Nat.le_of_lt_succ h.stride, ⟨by omega, by omega, notch_fits_iff.mp h.notch⟩,
      hsurface.mp ⟨h.surfacePixels, h.surfAdd⟩, (conversion_fits_iff shape).mp ⟨h.scale, h.shift⟩,
      h.channels⟩
  · rintro ⟨hstride, hcolumn, hsurface, hquant, hchannels⟩
    have hincols := hcolumn.inCols
    have houtcols : t.columns.outCols < 2 ^ 11 := Nat.lt_succ_of_le hcolumn.outCols
    have hfits := (surface_fits_iff hs hplan.kernelFits hplacement houtcols hrows).mpr hsurface
    have hconversion := (conversion_fits_iff shape).mpr hquant
    exact {
      stride := Nat.lt_succ_of_le hstride
      inCols := Nat.lt_succ_of_le hincols
      outCols := houtcols
      channels := hchannels
      surfacePixels := hfits.1
      notch := notch_fits_iff.mpr hcolumn.notch
      surfAdd := hfits.2
      scale := hconversion.1
      shift := hconversion.2 }

/-- A column no wider than 256 pixels, in an output of 256, is encodable. -/
theorem columnEncodable_of_captured (hs : shape.WellFormed policy) (hk : KernelFits shape kernels)
    (hcaptured : shape.width = 256 ∧ shape.outputWidth kernels = 256) {c : ColumnTile}
    (h : ColumnTile.fromOutputRange shape kernels c.outFirst c.outCols = .ok c) :
    ColumnEncodable shape kernels placement c := by
  obtain ⟨-, -, -, hle⟩ := ColumnTile.fromOutputRange_ok h
  obtain ⟨window, -, -, -, hcount, -⟩ := ColumnTile.columnWindow hs hk h
  have hinside := window.inside
  exact ⟨by omega, by omega, fun _ => by omega⟩

/-- **When emission succeeds.** For a constructed shape the planner accepts, every tile's program is
emitted, without a failed assertion, exactly when the shape is encodable. -/
theorem emission_ok_iff (hshape : shape.Built policy)
    (h : ConvPlan.tryNew policy shape kernels = .ok plan)
    (hplacement : placement = .contiguousTile → shape.precision.writesAccumulators) :
    (∀ t ∈ plan.tiles, ∃ program, tileProgram plan placement t = .ok program) ↔
      Encodable policy shape kernels placement := by
  have hs := hshape.wellFormed
  have hplan := planned_of_tryNew h
  have hk := hplan.kernelFits
  obtain ⟨-, -, -, ⟨dataBanks, weightBanks⟩, -, -, -, hbanks, hnew⟩ := tryNew_ok.mp h
  obtain ⟨-, -, hdata, hweight, -⟩ := newWithCbufPartition_grid hnew
  have hweights : plan.weightBanks ≤ 12 := by
    rw [hweight]
    exact ConvPlan.cbufPartition_weights hbanks
  have hcolumns := newWithCbufPartition_columns hk hs.stride_pos hnew
  have htile : ∀ t ∈ plan.tiles, _ ↔ _ := fun t ht =>
    (tileProgram_ok_iff hs hplan hweights hplacement ht).trans
      (tileEncodable_iff hs hplan hplacement ht)
  constructor
  · intro hall
    -- The clauses on the shape hold at any tile; there is one, since the output is not empty.
    obtain ⟨cols, hgrid⟩ := hplan.grid
    have hone := hgrid.countP_holds (shape.outputHeight_pos kernels) (shape.outputWidth_pos kernels)
    obtain ⟨t, ht, -⟩ := List.countP_pos_iff.mp (Nat.lt_of_lt_of_eq Nat.zero_lt_one hone.symm)
    obtain ⟨hstride, -, hsurface, hquant, hchannels⟩ := (htile t ht).mp (hall t ht)
    refine ⟨hstride, fun dataBanks' weightBanks' fewest hbanks' hfewest c hc => ?_, hsurface, hquant,
      hchannels⟩
    obtain ⟨rfl, rfl⟩ := Prod.mk.inj (Except.ok.inj (hbanks.symm.trans hbanks'))
    rcases hcolumns with ⟨cols', hcols', hgrid'⟩ | hcaptured
    · obtain rfl := hfewest.unique hcols'
      obtain ⟨r, ht⟩ := hgrid'.stacked.exists_mem (shape.outputHeight_pos kernels) hc
      exact ((htile _ ht).mp (hall _ ht)).2.1
    · obtain ⟨count, -, hbalanced, -⟩ := hfewest.exists_count
      exact columnEncodable_of_captured hs hk hcaptured ((ColumnTile.split_cover hbalanced).2 c hc)
  · intro henc t ht
    refine (htile t ht).mpr ⟨henc.stride, ?_, henc.surface, henc.requantization, henc.channels⟩
    rcases hcolumns with ⟨cols, hfewest, hgrid⟩ | hcaptured
    · obtain ⟨r, c, hc, rfl, -⟩ := hgrid.stacked.mem ht
      exact henc.columns dataBanks weightBanks cols hbanks hfewest c hc
    · obtain ⟨cols, hgrid⟩ := hplan.grid
      obtain ⟨r, c, hc, rfl, -⟩ := hgrid.stacked.mem ht
      exact columnEncodable_of_captured hs hk hcaptured (hgrid.colBounds c hc)

end Tiles

/-- The programs of the stride-two stem are emitted, so the stem is encodable. -/
theorem emission_ok_stem : Encodable .default stemShape (3, 3) .sharedImage := by
  have hplacement : OutputPlacement.sharedImage = .contiguousTile →
      stemShape.precision.writesAccumulators := by decide
  refine (emission_ok_iff stem_built stem_planned hplacement).mp fun t ht => ?_
  have hsome : ∀ t ∈ stemPlan.tiles, (tileProgram stemPlan .sharedImage t).toOption.isSome := by
    decide +kernel
  have ht := hsome t ht
  cases hprogram : tileProgram stemPlan .sharedImage t with
  | ok program => exact ⟨program, rfl⟩
  | error stop => rw [hprogram] at ht; cases ht

/-! ### A wide dense image

A dense image of 2048 columns: two rows of it fit one data bank, so the plan is a single tile, and
its width is one more than the eleven bits of `datain_width` hold. -/

def wideShape : Shape :=
  { width := 2048, height := 2, stride := 1, inChannels := 3, outChannels := 8, precision := .fp16
    padding := none, activation := .none, depthwise := false }

def widePlan : ConvPlan :=
  { shape := wideShape, kernels := (1, 1), dataBanks := 4, weightBanks := 8
    outputColumnWidths := [2048], tiles := [⟨⟨0, 2, 0, 2, 0⟩, ⟨0, 2048, 0, 2048, 0⟩⟩] }

theorem wide_not_emitted :
    wideShape.Built .default ∧ ConvPlan.tryNew .default wideShape (1, 1) = .ok widePlan ∧
      ∃ t ∈ widePlan.tiles, tileProgram widePlan .sharedImage t =
        .error (.panicked "Value exceeds designated bit width!") := by
  refine ⟨.withPrecision (by decide) (by decide) (by decide)
    (show Shape.tryWithPrecision .default 2048 2 1 3 8 .fp16 = .ok wideShape from rfl),
    by decide +kernel, _, List.mem_cons_self, by decide +kernel⟩

end IreeRocket.Hal
