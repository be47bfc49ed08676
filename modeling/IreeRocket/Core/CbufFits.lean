import IreeRocket.Core.TiledConvolution

/-!
# Every tile fits the CBUF

The row capacity divides a number of bytes by the bytes one row of the tile occupies, and is capped
by the `data_entries` field. The cap also bounds the charged width of any tile that holds a row, so
the `u32` product the capacity divides by never wraps on a tile of a plan; read backwards, the
division is the byte bound.
-/

namespace IreeRocket.Conv

/-- The residency bounds of one tile under `dataBanks` data banks. -/
structure Resident (shape : Shape) (kernels : Kernels) (dataBanks : Nat) (t : Tile2D) : Prop where
  dense_bytes : shape.layout = .dense →
    t.rows.inRows * shape.cbufInputWidth t.columns.inCols * shape.denseCbufPixelBytes ≤
      dataBanks * 8192
  dense_aligned : shape.layout = .dense → t.rows.inFirst * shape.inputRowStride % 16 = 0
  surface_bytes : shape.layout = .surfaces →
    t.rows.inRows * ((t.columns.inCols * shape.cbufAtoms) ⌈/⌉ 4) * 64 ≤ dataBanks * 32768
  slab_base : shape.layout = .surfaces → (shape.cbufAtoms ⌈/⌉ 4 - 1) * t.columns.inCols ≤ 2047
  entries : t.rows.inRows * shape.cbufInputWidth t.columns.inCols ≤ 0x7fff
  grains : t.rows.inRows + kernels.1 + t.rows.padTop ≤ 1023

/-- The widest tile of a surface layout begins its last slab inside the 11-bit range. -/
theorem slab_base_le {shape : Shape} (hsurf : shape.layout = .surfaces) {inCols : Nat}
    (h : inCols ≤ shape.maxTileInputWidth) : (shape.cbufAtoms ⌈/⌉ 4 - 1) * inCols ≤ 2047 := by
  unfold Shape.maxTileInputWidth at h
  simp only [hsurf, cbufAtomsPerEntry, maxEntrySlabBase] at h
  split_ifs at h with hzero
  · rw [hzero]
    omega
  · have hle : inCols ≤ 2047 / (shape.cbufAtoms ⌈/⌉ 4 - 1) := h.trans (Nat.min_le_left _ _)
    rw [Nat.mul_comm]
    exact (Nat.le_div_iff_mul_le (by omega)).mp hle

/-- What a row capacity is: the rows whose bytes fit, capped by the `data_entries` field. -/
theorem capacity_ok {shape : Shape} {inputWidth dataBanks capacity : Nat}
    (h : shape.maxTileInputRowsForWidthAndDataBanks inputWidth dataBanks = .ok capacity) :
    ∃ bytes, shape.byteCapacity inputWidth dataBanks = .ok bytes ∧
      capacity = min bytes (maxDataEntries / shape.cbufInputWidth inputWidth) := by
  unfold Shape.maxTileInputRowsForWidthAndDataBanks at h
  simp only [bind_ok, assertThat_ok, pure_ok, exists_const] at h
  obtain ⟨-, -, bytes, hbytes, rfl⟩ := h
  exact ⟨bytes, hbytes, rfl⟩

/-- A positive capacity bounds the rows by the `data_entries` field. -/
theorem entries_le_of_capacity {shape : Shape} {inputWidth dataBanks capacity inRows : Nat}
    (h : shape.maxTileInputRowsForWidthAndDataBanks inputWidth dataBanks = .ok capacity)
    (hrows : inRows ≤ capacity) (hwidth : 0 < inputWidth) :
    inRows * shape.cbufInputWidth inputWidth ≤ 0x7fff := by
  obtain ⟨bytes, -, rfl⟩ := capacity_ok h
  have hpos : 0 < shape.cbufInputWidth inputWidth := hwidth.trans_le (shape.le_cbufInputWidth _)
  exact (Nat.le_div_iff_mul_le hpos).mp (hrows.trans (Nat.min_le_right _ _))

theorem dense_bytes_of_capacity {shape : Shape} {inputWidth dataBanks capacity inRows : Nat}
    (hdense : shape.layout = .dense)
    (h : shape.maxTileInputRowsForWidthAndDataBanks inputWidth dataBanks = .ok capacity)
    (hrows : inRows ≤ capacity) (hpos : 0 < inRows) (hwidth : 0 < inputWidth) :
    inRows * shape.cbufInputWidth inputWidth * shape.denseCbufPixelBytes ≤ dataBanks * 8192 := by
  have hentries := entries_le_of_capacity h hrows hwidth
  have hcharged : shape.cbufInputWidth inputWidth ≤ 0x7fff :=
    (Nat.le_mul_of_pos_left _ hpos).trans hentries
  have hproduct : shape.cbufInputWidth inputWidth * shape.denseCbufPixelBytes ≤ 0x7fff * 16 :=
    Nat.mul_le_mul hcharged shape.denseCbufPixelBytes_le
  obtain ⟨bytes, hbytes, rfl⟩ := capacity_ok h
  unfold Shape.byteCapacity at hbytes
  rw [hdense] at hbytes
  obtain ⟨hne, rfl⟩ := divide_ok.mp hbytes
  rw [wrap32_of_lt (by omega)] at hne hrows
  have hle := hrows.trans (Nat.min_le_left _ _)
  rw [Nat.mul_assoc]
  exact (Nat.le_div_iff_mul_le (Nat.pos_of_ne_zero hne)).mp hle

theorem surface_bytes_of_capacity {shape : Shape} {inputWidth dataBanks capacity inRows : Nat}
    (hsurf : shape.layout = .surfaces)
    (h : shape.maxTileInputRowsForWidthAndDataBanks inputWidth dataBanks = .ok capacity)
    (hrows : inRows ≤ capacity) (hpos : 0 < inRows) (hwidth : 0 < inputWidth)
    (hmax : inputWidth ≤ shape.maxTileInputWidth) :
    inRows * ((inputWidth * shape.cbufAtoms) ⌈/⌉ 4) * 64 ≤ dataBanks * 32768 := by
  have hentries := entries_le_of_capacity h hrows hwidth
  have hslab := slab_base_le hsurf hmax
  have hcols : inputWidth ≤ 0x7fff := by
    have := shape.le_cbufInputWidth inputWidth
    have := Nat.le_mul_of_pos_left (shape.cbufInputWidth inputWidth) hpos
    omega
  -- The slabs bound the atoms of a line: neither product of the capacity leaves `u32`.
  have hatoms : inputWidth * shape.cbufAtoms ≤ 4 * (2047 + 0x7fff) := by
    have hround := le_ceilDiv_mul shape.cbufAtoms (b := 4) (by decide)
    have hslabs : 0 < shape.cbufAtoms ⌈/⌉ 4 := ceilDiv_pos shape.cbufAtoms_pos (by decide)
    calc inputWidth * shape.cbufAtoms
        ≤ inputWidth * ((shape.cbufAtoms ⌈/⌉ 4) * 4) := Nat.mul_le_mul_left _ hround
      _ = 4 * ((shape.cbufAtoms ⌈/⌉ 4 - 1) * inputWidth + inputWidth) := by
          obtain ⟨n, hn⟩ := Nat.exists_eq_add_of_lt hslabs
          rw [hn]
          simp only [Nat.zero_add, Nat.add_sub_cancel]
          ring
      _ ≤ 4 * (2047 + 0x7fff) := by omega
  have hround := ceilDiv_mul_lt (inputWidth * shape.cbufAtoms) (b := 4) (by decide)
  obtain ⟨bytes, hbytes, rfl⟩ := capacity_ok h
  unfold Shape.byteCapacity cbufAtomsPerEntry featureAtomBytes at hbytes
  rw [hsurf] at hbytes
  obtain ⟨hne, rfl⟩ := divide_ok.mp hbytes
  rw [wrap32_of_lt (n := inputWidth * shape.cbufAtoms) (by omega), wrap32_of_lt (by omega)] at hne hrows
  have hle := (Nat.le_div_iff_mul_le (Nat.pos_of_ne_zero hne)).mp (hrows.trans (Nat.min_le_left _ _))
  calc inRows * ((inputWidth * shape.cbufAtoms) ⌈/⌉ 4) * 64
      = inRows * ((inputWidth * shape.cbufAtoms) ⌈/⌉ 4 * 4 * 16) := by ring
    _ ≤ dataBanks * 32768 := hle

/-- The checks a tile passed bound its grains. -/
theorem grains_le {shape : Shape} {kernels : Kernels} (hk : KernelFits shape kernels)
    {dataBanks : Nat} {t : Tile2D} (hfits : TileFits shape kernels dataBanks t)
    (hpad : t.rows.padTop ≤ (shape.kernelProgramming kernels).padTop) :
    t.rows.inRows + kernels.1 + t.rows.padTop ≤ 1023 := by
  rcases hfits.grains with h | h
  · unfold Shape.maxFeatureGrainInputRows maxFeatureGrains at h
    simp only [kernelProgramming_height] at h
    have := hk.height_le
    have := hk.padTop_lt
    omega
  · exact h

/-- The tiles of a planner's grid are resident under the data banks it was planned with. -/
theorem Planned.resident {policy : PlanningPolicy} {shape : Shape} {kernels : Kernels}
    {plan : ConvPlan} (hs : shape.WellFormed policy) (h : Planned shape kernels plan) {t : Tile2D}
    (ht : t ∈ plan.tiles) : Resident shape kernels plan.dataBanks t := by
  obtain ⟨⟨rows, -, -, -, h4, -⟩, cols, -, -, -, g4, -⟩ := h.windows hs ht
  have hrows : 0 < t.rows.inRows := h4 ▸ rows.nonempty
  have hcols : 0 < t.columns.inCols := g4 ▸ cols.nonempty
  obtain ⟨cover, hgrid⟩ := h.grid
  have hfits := hgrid.fits t ht
  obtain ⟨capacity, hcap, hle⟩ := hfits.rows_le
  have hpad : t.rows.padTop ≤ (shape.kernelProgramming kernels).padTop := by
    rw [hgrid.rowBounds t ht]
    exact Nat.sub_le _ _
  refine {
    dense_bytes := fun hd => dense_bytes_of_capacity hd hcap hle hrows hcols
    dense_aligned := fun hd => ?_
    surface_bytes := fun hsurf => surface_bytes_of_capacity hsurf hcap hle hrows hcols hfits.width_le
    slab_base := fun hsurf => slab_base_le hsurf hfits.width_le
    entries := entries_le_of_capacity hcap hle hcols
    grains := grains_le h.kernelFits hfits hpad }
  have hsafe := hfits.safe
  unfold Shape.denseFeatureOffsetSafe at hsafe
  rw [hd] at hsafe
  exact beq_iff_eq.mp hsafe

/-- **Every tile fits the buffer it runs in.** On every path the planner can return by and under
every bank split it may be given. -/
theorem tiles_resident {policy : PlanningPolicy} {shape : Shape} {kernels : Kernels}
    {plan : ConvPlan} (h : Accepted policy shape kernels plan) :
    ∀ t ∈ plan.tiles, Resident shape kernels plan.dataBanks t :=
  fun _ ht => h.planned.resident h.wellFormed ht

theorem tiles_resident_stem :
    Resident stemShape (3, 3) 11 ⟨⟨25, 24, 49, 49, 0⟩, ⟨0, 112, 0, 224, 1⟩⟩ :=
  tiles_resident stem_accepted _ (by decide)

end IreeRocket.Conv
