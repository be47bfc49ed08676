import IreeRocket.Core.RowTiles

/-!
# What a returned plan is

Every path of `newWithCbufPartition` ends in a grid: columns that cover the output width, and for each
column a row cover of the output height, every tile of which passed the width, row and grain checks
of its path. `planned_of_tryNew` and `planned_of_tryWithCbufBanks` say so of both entry points, for
every policy and every bank split; what the planner guarantees of a plan is derived from it.
-/

namespace IreeRocket.Conv

open Segments

/-- The checks a tile of a plan has passed. -/
structure TileFits (shape : Shape) (kernels : Kernels) (dataBanks : Nat) (t : Tile2D) : Prop where
  width_le : t.columns.inCols ≤ shape.maxTileInputWidth
  rows_le : ∃ capacity, shape.maxTileInputRowsForWidthAndDataBanks t.columns.inCols dataBanks =
    .ok capacity ∧ t.rows.inRows ≤ capacity
  grains : t.rows.inRows ≤ shape.maxFeatureGrainInputRows kernels ∨
    featureGrains kernels t.rows ≤ maxFeatureGrains
  safe : shape.denseFeatureOffsetSafe t.rows.inFirst

/-- `tiles` is the grid over `cols`, column by column. -/
structure Grid (shape : Shape) (kernels : Kernels) (dataBanks : Nat) (cols : List ColumnTile)
    (tiles : List Tile2D) : Prop where
  colCovers : Covers ColumnTile.outFirst ColumnTile.outCols 0 cols (shape.outputWidth kernels)
  colBounds : ∀ c ∈ cols, ColumnTile.fromOutputRange shape kernels c.outFirst c.outCols = .ok c
  stacked : Stacked Tile2D.mk Tile.outFirst Tile.outRows (shape.outputHeight kernels) cols tiles
  rowBounds : ∀ t ∈ tiles, t.rows = Tile.fromBounds shape kernels t.rows.outFirst t.rows.outRows
  fits : ∀ t ∈ tiles, TileFits shape kernels dataBanks t

/-- What the planner returns for a shape and a kernel. -/
structure Planned (shape : Shape) (kernels : Kernels) (plan : ConvPlan) : Prop where
  shape_eq : plan.shape = shape
  kernels_eq : plan.kernels = kernels
  kernelFits : KernelFits shape kernels
  grid : ∃ cols, Grid shape kernels plan.dataBanks cols plan.tiles

/-! ### Columns -/

namespace ColumnTile

theorem fromOutputRange_ok {shape : Shape} {kernels : Kernels} {a n : Nat} {c : ColumnTile}
    (h : fromOutputRange shape kernels a n = .ok c) :
    c.outFirst = a ∧ c.outCols = n ∧ 0 < n ∧ a + n ≤ shape.outputWidth kernels := by
  unfold fromOutputRange at h
  simp only [bind_ok, assertThat_ok, pure_ok, exists_const] at h
  obtain ⟨⟨h1, h2⟩, rfl⟩ := h
  exact ⟨rfl, rfl, h1, h2⟩

/-- A column that spans the output width reads every input column. -/
theorem inCols_of_full {shape : Shape} {kernels : Kernels} {c : ColumnTile}
    (h : fromOutputRange shape kernels c.outFirst c.outCols = .ok c) (hfirst : c.outFirst = 0)
    (hcols : c.outCols = shape.outputWidth kernels) : c.inCols = shape.width := by
  unfold fromOutputRange at h
  simp only [bind_ok, assertThat_ok, pure_ok, exists_const] at h
  obtain ⟨-, h⟩ := h
  rw [← h]
  simp [hfirst, hcols]

theorem splitFrom_cover {shape : Shape} {kernels : Kernels} (widths : List Nat) :
    ∀ {a : Nat} {cols : List ColumnTile}, a + widths.sum = shape.outputWidth kernels →
      splitFrom shape kernels a widths = .ok cols →
      Covers ColumnTile.outFirst ColumnTile.outCols a cols (shape.outputWidth kernels) ∧
        ∀ c ∈ cols, fromOutputRange shape kernels c.outFirst c.outCols = .ok c := by
  induction widths with
  | nil =>
    intro a cols hsum h
    rw [splitFrom, pure_ok] at h
    subst h
    rw [show a = shape.outputWidth kernels by simpa using hsum]
    exact ⟨.nil _, by simp⟩
  | cons n widths ih =>
    intro a cols hsum h
    rw [splitFrom] at h
    simp only [bind_ok, pure_ok] at h
    obtain ⟨c, hc, rest, hrest, rfl⟩ := h
    obtain ⟨hfirst, hcount, hpos, -⟩ := fromOutputRange_ok hc
    rw [List.sum_cons] at hsum
    obtain ⟨hcovers, hbounds⟩ := ih (by omega) hrest
    refine ⟨.cons' hfirst (by omega) (by rw [hcount]; exact hcovers), ?_⟩
    intro c' hc'
    rcases List.mem_cons.mp hc' with rfl | hc'
    · rw [hfirst, hcount]
      exact hc
    · exact hbounds c' hc'

theorem split_cover {shape : Shape} {kernels : Kernels} {widths : List Nat} {cols : List ColumnTile}
    (h : split shape kernels widths = .ok cols) :
    Covers ColumnTile.outFirst ColumnTile.outCols 0 cols (shape.outputWidth kernels) ∧
      ∀ c ∈ cols, fromOutputRange shape kernels c.outFirst c.outCols = .ok c := by
  unfold split at h
  simp only [bind_ok, assertThat_ok, exists_const] at h
  exact splitFrom_cover widths (by omega) h.2.2

end ColumnTile

/-! ### Grids -/

theorem planColumns_grid {shape : Shape} {kernels : Kernels} {dataBanks : Nat}
    (cols : List ColumnTile) : ∀ {tiles : List Tile2D},
      planColumns shape kernels dataBanks cols = .ok (some tiles) →
      Stacked Tile2D.mk Tile.outFirst Tile.outRows (shape.outputHeight kernels) cols tiles ∧
        (∀ t ∈ tiles, t.rows = Tile.fromBounds shape kernels t.rows.outFirst t.rows.outRows) ∧
        ∀ t ∈ tiles, TileFits shape kernels dataBanks t := by
  induction cols with
  | nil =>
    intro tiles h
    rw [planColumns, pure_ok] at h
    obtain rfl := Option.some.inj h
    exact ⟨.nil, by simp, by simp⟩
  | cons c cols ih =>
    intro tiles h
    rw [planColumns] at h
    split_ifs at h with hwide
    · cases h
    · simp only [bind_ok] at h
      obtain ⟨capacity, hcap, rows, hrows, h⟩ := h
      cases rows with
      | none => cases h
      | some rows =>
        simp only [bind_ok] at h
        obtain ⟨rest, hrest, h⟩ := h
        cases rest with
        | none => cases h
        | some rest =>
          obtain rfl := Option.some.inj (pure_ok.mp h)
          have hsplit := rowTiles_split hrows
          obtain ⟨hstack, hbounds, hfits⟩ := ih hrest
          refine ⟨.cons hsplit.covers hstack, ?_, ?_⟩
          · intro t ht
            rcases List.mem_append.mp ht with ht | ht
            · obtain ⟨r, hr, rfl⟩ := List.mem_map.mp ht
              exact hsplit.bounds r hr
            · exact hbounds t ht
          · intro t ht
            rcases List.mem_append.mp ht with ht | ht
            · obtain ⟨r, hr, rfl⟩ := List.mem_map.mp ht
              have hle := hsplit.rows_le r hr
              exact ⟨by simpa using hwide, ⟨capacity, hcap, hle.trans (Nat.min_le_left _ _)⟩,
                .inl (hle.trans (Nat.min_le_right _ _)), hsplit.safe r hr⟩
            · exact hfits t ht

theorem planGrid_ok {shape : Shape} {kernels : Kernels} {widths : List Nat} {dataBanks : Nat}
    {result : Option (List Tile2D)} (h : planGrid shape kernels widths dataBanks = .ok result) :
    ∃ cols, ColumnTile.split shape kernels widths = .ok cols ∧
      planColumns shape kernels dataBanks cols = .ok result := by
  unfold planGrid at h
  simpa only [bind_ok] using h

theorem grid_of_planColumns {shape : Shape} {kernels : Kernels} {widths : List Nat} {dataBanks : Nat}
    {cols : List ColumnTile} {tiles : List Tile2D}
    (hcols : ColumnTile.split shape kernels widths = .ok cols)
    (h : planColumns shape kernels dataBanks cols = .ok (some tiles)) :
    Grid shape kernels dataBanks cols tiles := by
  obtain ⟨hcovers, hbounds⟩ := ColumnTile.split_cover hcols
  obtain ⟨hstack, hrows, hfits⟩ := planColumns_grid cols h
  exact ⟨hcovers, hbounds, hstack, hrows, hfits⟩

theorem planGrid_grid {shape : Shape} {kernels : Kernels} {widths : List Nat} {dataBanks : Nat}
    {tiles : List Tile2D} (h : planGrid shape kernels widths dataBanks = .ok (some tiles)) :
    ∃ cols, Grid shape kernels dataBanks cols tiles := by
  obtain ⟨cols, hcols, h⟩ := planGrid_ok h
  exact ⟨cols, grid_of_planColumns hcols h⟩

theorem gridFrom_stacked {shape : Shape} {kernels : Kernels} {dataBanks : Nat}
    (cols : List ColumnTile) : ∀ {tiles : List Tile2D},
      Tile2D.gridFrom shape kernels dataBanks cols = .ok tiles →
      Stacked Tile2D.mk Tile.outFirst Tile.outRows (shape.outputHeight kernels) cols tiles ∧
        ∀ t ∈ tiles, t.rows = Tile.fromBounds shape kernels t.rows.outFirst t.rows.outRows := by
  induction cols with
  | nil =>
    intro tiles h
    rw [Tile2D.gridFrom, pure_ok] at h
    subst h
    exact ⟨.nil, by simp⟩
  | cons c cols ih =>
    intro tiles h
    rw [Tile2D.gridFrom] at h
    simp only [bind_ok, pure_ok] at h
    obtain ⟨count, -, rows, hrows, rest, hrest, rfl⟩ := h
    have hcover := Tile.split_cover hrows
    obtain ⟨hstack, hbounds⟩ := ih hrest
    refine ⟨.cons hcover.covers hstack, ?_⟩
    intro t ht
    rcases List.mem_append.mp ht with ht | ht
    · obtain ⟨r, hr, rfl⟩ := List.mem_map.mp ht
      exact hcover.bounds r hr
    · exact hbounds t ht

/-- `gridFits` checks every tile. On a surface layout no row is unsafe. -/
theorem gridFits_true {shape : Shape} {kernels : Kernels} {dataBanks : Nat}
    (hsurf : shape.layout = .surfaces) (tiles : List Tile2D) :
    gridFits shape kernels dataBanks tiles = .ok true →
      ∀ t ∈ tiles, TileFits shape kernels dataBanks t := by
  induction tiles with
  | nil => simp
  | cons tile tiles ih =>
    intro h
    rw [gridFits] at h
    split_ifs at h with hwide
    · simp only [bind_ok] at h
      obtain ⟨capacity, hcap, h⟩ := h
      split_ifs at h with hrows
      · intro t ht
        rcases List.mem_cons.mp ht with rfl | ht
        · exact ⟨hwide, ⟨capacity, hcap, hrows.1⟩, .inr hrows.2, safe_of_surfaces hsurf _⟩
        · exact ih h t ht
      · cases h
    · cases h

/-! ### Bank partitions -/

/-- The coefficients are never granted more than the buffer. -/
theorem Shape.tryDemandBasedCbufPartition_weights {s : Shape} {kernels : Kernels} {banks : Nat × Nat}
    (h : s.tryDemandBasedCbufPartition kernels = .ok banks) : banks.2 ≤ cbufBanks := by
  unfold Shape.tryDemandBasedCbufPartition at h
  simp only [bind_ok, refuseUnless_ok, exists_const] at h
  obtain ⟨-, h⟩ := h
  split_ifs at h
  · obtain rfl := pure_ok.mp h
    exact (Nat.min_le_right _ _).trans (by decide)
  · obtain rfl := pure_ok.mp h
    exact (Nat.min_le_right _ _).trans (by decide)
  · simp only [bind_ok] at h
    obtain ⟨baseline, -, wholeData, -, h⟩ := h
    split_ifs at h
    · obtain rfl := pure_ok.mp h
      exact Nat.sub_le _ _
    · obtain rfl := pure_ok.mp h
      exact Nat.sub_le _ _

theorem unstarvedLargeKernelPartition_weights (s : Shape) (kernels : Kernels) (captured : Nat × Nat) :
    (unstarvedLargeKernelPartition s kernels captured).2 ≤ cbufBanks :=
  (Nat.min_le_right _ _).trans (by decide)

theorem evenSquareCbufPartition_ok {s : Shape} {kernels : Kernels} {banks : Nat × Nat} :
    evenSquareCbufPartition s kernels = .ok banks ↔
      s.stride = 1 ∧ s.weightBankDemand kernels ≤ maxEvenSquareDemandBasedWeightBanks ∧
        s.tryDemandBasedCbufPartition kernels = .ok banks := by
  unfold evenSquareCbufPartition
  simp only [bind_ok, refuseUnless_ok, exists_const]

theorem nonSquareCbufPartition_ok {s : Shape} {kernels : Kernels} {banks : Nat × Nat} :
    nonSquareCbufPartition s kernels = .ok banks ↔
      s.stride = 1 ∧ (∃ kernel, s.tryKernelProgramming kernels = .ok kernel) ∧
        s.weightBankDemand kernels ≤ (nonSquareLimit s.precision kernels).1 ∧
        s.tryDemandBasedCbufPartition kernels = .ok banks := by
  unfold nonSquareCbufPartition
  simp only [bind_ok, refuseUnless_ok, exists_const, exists_and_right]

theorem ConvPlan.squarePartition_weights {policy : PlanningPolicy} {s : Shape} {kernels : Kernels}
    {banks : Nat × Nat} (h : squarePartition policy s kernels = .ok banks) :
    banks.2 ≤ cbufBanks := by
  unfold squarePartition at h
  split at h
  · exact s.tryDemandBasedCbufPartition_weights h
  · exact s.tryDemandBasedCbufPartition_weights h
  iterate 5 exact s.tryDemandBasedCbufPartition_weights (evenSquareCbufPartition_ok.mp h).2.2
  · simp only [bind_ok] at h
    obtain ⟨-, -, h⟩ := h
    exact s.tryDemandBasedCbufPartition_weights h
  · simp only [bind_ok] at h
    obtain ⟨-, -, h⟩ := h
    split_ifs at h
    · exact s.tryDemandBasedCbufPartition_weights h
    · obtain rfl := pure_ok.mp h
      exact unstarvedLargeKernelPartition_weights _ _ _
  · simp only [bind_ok, pure_ok] at h
    obtain ⟨-, -, rfl⟩ := h
    exact unstarvedLargeKernelPartition_weights _ _ _
  · simp only [bind_ok, pure_ok] at h
    obtain ⟨-, -, rfl⟩ := h
    exact unstarvedLargeKernelPartition_weights _ _ _
  · cases h

/-- No partition the planner picks gives the coefficients more than the buffer. -/
theorem ConvPlan.cbufPartition_weights {policy : PlanningPolicy} {s : Shape} {kernels : Kernels}
    {banks : Nat × Nat} (h : cbufPartition policy s kernels = .ok banks) :
    banks.2 ≤ cbufBanks := by
  unfold cbufPartition at h
  split_ifs at h
  · exact s.tryDemandBasedCbufPartition_weights (nonSquareCbufPartition_ok.mp h).2.2.2
  · exact squarePartition_weights h
/-! ### Plans -/

theorem balancedSearch_grid {shape : Shape} {kernels : Kernels} {dataBanks weightBanks : Nat}
    (rest : Nat) : ∀ {count : Nat} {plan : ConvPlan},
      ConvPlan.balancedSearch shape kernels dataBanks weightBanks count rest = .ok plan →
      plan.shape = shape ∧ plan.kernels = kernels ∧ plan.dataBanks = dataBanks ∧
        plan.weightBanks = weightBanks ∧ ∃ cols, Grid shape kernels dataBanks cols plan.tiles := by
  induction rest with
  | zero => intro count plan h; cases h
  | succ rest ih =>
    intro count plan h
    rw [ConvPlan.balancedSearch] at h
    simp only [bind_ok] at h
    obtain ⟨tiles, htiles, h⟩ := h
    cases tiles with
    | none => exact ih h
    | some tiles =>
      obtain rfl := pure_ok.mp h
      exact ⟨rfl, rfl, rfl, rfl, planGrid_grid htiles⟩

/-- Every path of `newWithCbufPartition` that returns ends in a grid. -/
theorem newWithCbufPartition_grid {shape : Shape} {kernels : Kernels} {dataBanks weightBanks : Nat}
    {plan : ConvPlan}
    (h : ConvPlan.newWithCbufPartition shape kernels dataBanks weightBanks = .ok plan) :
    plan.shape = shape ∧ plan.kernels = kernels ∧ plan.dataBanks = dataBanks ∧
      plan.weightBanks = weightBanks ∧ ∃ cols, Grid shape kernels dataBanks cols plan.tiles := by
  unfold ConvPlan.newWithCbufPartition at h
  simp only [bind_ok] at h
  obtain ⟨full, hfull, h⟩ := h
  cases full with
  | some tiles =>
    obtain rfl := pure_ok.mp h
    exact ⟨rfl, rfl, rfl, rfl, planGrid_grid hfull⟩
  | none =>
    simp only [bind_ok, refuseUnless_ok, exists_const] at h
    obtain ⟨hsurf, h⟩ := h
    cases hcap : capturedColumnPartition shape kernels with
    | none => rw [hcap] at h; exact balancedSearch_grid _ h
    | some widths =>
      rw [hcap] at h
      simp only [bind_ok, refuseUnless_ok, pure_ok, exists_const] at h
      obtain ⟨tiles, htiles, fits, hfits, htrue, rfl⟩ := h
      subst htrue
      unfold Tile2D.grid at htiles
      simp only [bind_ok] at htiles
      obtain ⟨cols, hcols, htiles⟩ := htiles
      obtain ⟨hcovers, hbounds⟩ := ColumnTile.split_cover hcols
      obtain ⟨hstack, hrows⟩ := gridFrom_stacked cols htiles
      exact ⟨rfl, rfl, rfl, rfl, cols, hcovers, hbounds, hstack, hrows, gridFits_true hsurf tiles hfits⟩

theorem planned_of_partition {shape : Shape} {kernels : Kernels} {dataBanks weightBanks : Nat}
    {plan : ConvPlan} (hk : KernelFits shape kernels)
    (h : ConvPlan.newWithCbufPartition shape kernels dataBanks weightBanks = .ok plan) :
    Planned shape kernels plan := by
  obtain ⟨h1, h2, h3, -, h4⟩ := newWithCbufPartition_grid h
  exact ⟨h1, h2, hk, by rw [h3]; exact h4⟩

/-- What `tryNew` has checked and picked when it returns. -/
theorem tryNew_ok {policy : PlanningPolicy} {shape : Shape} {kernels : Kernels} {plan : ConvPlan} :
    ConvPlan.tryNew policy shape kernels = .ok plan ↔
      ∃ kernel u bytes banks, shape.tryKernelProgramming kernels = .ok kernel ∧
        shape.checkExtentsAgainst kernel = .ok u ∧ shape.tryWeightBytes kernels = .ok bytes ∧
        ConvPlan.cbufPartition policy shape kernels = .ok banks ∧
        ConvPlan.newWithCbufPartition shape kernels banks.1 banks.2 = .ok plan := by
  unfold ConvPlan.tryNew
  simp only [bind_ok]
  constructor
  · rintro ⟨kernel, hk, u, hx, bytes, hb, banks, hc, h⟩
    exact ⟨kernel, u, bytes, banks, hk, hx, hb, hc, h⟩
  · rintro ⟨kernel, u, bytes, banks, hk, hx, hb, hc, h⟩
    exact ⟨kernel, hk, u, hx, bytes, hb, banks, hc, h⟩

theorem planned_of_tryNew {policy : PlanningPolicy} {shape : Shape} {kernels : Kernels}
    {plan : ConvPlan} (h : ConvPlan.tryNew policy shape kernels = .ok plan) :
    Planned shape kernels plan := by
  obtain ⟨kernel, u, bytes, banks, hk, hx, -, -, h⟩ := tryNew_ok.mp h
  exact planned_of_partition (kernelFits_of_checks hk hx).1 h

theorem planned_of_tryWithCbufBanks {shape : Shape} {kernels : Kernels}
    {dataBanks weightBanks : Nat} {plan : ConvPlan}
    (h : ConvPlan.tryWithCbufBanks shape kernels dataBanks weightBanks = .ok plan) :
    Planned shape kernels plan := by
  unfold ConvPlan.tryWithCbufBanks at h
  simp only [bind_ok] at h
  obtain ⟨_, -, kernel, hk, u, hx, bytes, -, h⟩ := h
  exact planned_of_partition (kernelFits_of_checks hk hx).1 h

end IreeRocket.Conv
