import IreeRocket.Core.Columns

/-!
# When planning succeeds

The converse of `PlanSpec`: under what conditions the planner's steps return. A row capacity is
returned for every tile width once the bytes of one full row stay inside `u32`; a surface layout is
then planned whenever columns of one output each fit, since the balanced search ends with them
(`newWithCbufPartition_surfaces`). A dense layout has no columns to fall back on and either plans as it
stands or is refused for them (`newWithCbufPartition_dense`).
-/

namespace IreeRocket.Conv

open Segments

/-! ### Capacities -/

namespace Shape

/-- The bytes the CBUF bills for one row of a tile, before any wrap. -/
def rowBytes (s : Shape) (inputWidth : Nat) : Nat :=
  match s.layout with
  | .dense => s.cbufInputWidth inputWidth * s.denseCbufPixelBytes
  | .surfaces =>
    (inputWidth * s.cbufAtoms) ⌈/⌉ cbufAtomsPerEntry * cbufAtomsPerEntry * featureAtomBytes

/-- The bytes of one data bank a row is held in. -/
def bankBytes (s : Shape) : Nat :=
  match s.layout with
  | .dense => cbufBankBytes / 4
  | .surfaces => cbufBankBytes

theorem cbufInputWidth_mono (s : Shape) {a b : Nat} (h : a ≤ b) :
    s.cbufInputWidth a ≤ s.cbufInputWidth b := by
  unfold cbufInputWidth
  cases s.layout with
  | dense => exact Nat.mul_le_mul_right _ (ceilDiv_mono _ h)
  | surfaces => exact h

theorem rowBytes_mono (s : Shape) {a b : Nat} (h : a ≤ b) : s.rowBytes a ≤ s.rowBytes b := by
  unfold rowBytes
  cases s.layout with
  | dense => exact Nat.mul_le_mul_right _ (s.cbufInputWidth_mono h)
  | surfaces =>
    have hatoms := ceilDiv_mono cbufAtomsPerEntry (Nat.mul_le_mul_right s.cbufAtoms h)
    exact Nat.mul_le_mul_right _ (Nat.mul_le_mul_right _ hatoms)

theorem rowBytes_pos (s : Shape) (hbytes : s.layout = .dense → 0 < s.precision.elementBytes)
    {inputWidth : Nat} (h : 0 < inputWidth) : 0 < s.rowBytes inputWidth := by
  unfold rowBytes
  cases hlayout : s.layout with
  | dense =>
    exact Nat.mul_pos (h.trans_le (s.le_cbufInputWidth _))
      (Nat.mul_pos s.storedChannels_pos (hbytes hlayout))
  | surfaces =>
    have hentries : 0 < (inputWidth * s.cbufAtoms) ⌈/⌉ cbufAtomsPerEntry :=
      ceilDiv_pos (Nat.mul_pos h s.cbufAtoms_pos) (by decide)
    exact Nat.mul_pos (Nat.mul_pos hentries (by decide)) (by decide)

/-- Where a full row fits `u32`, the capacity divides by the bytes of a row. -/
theorem byteCapacity_eq (s : Shape) (hbytes : s.layout = .dense → 0 < s.precision.elementBytes)
    {inputWidth dataBanks : Nat} (hwidth : 1 ≤ inputWidth ∧ inputWidth ≤ s.width)
    (hrow : s.rowBytes s.width < 2 ^ 32) :
    s.byteCapacity inputWidth dataBanks = .ok (dataBanks * s.bankBytes / s.rowBytes inputWidth) := by
  have hlt := (s.rowBytes_mono hwidth.2).trans_lt hrow
  have hpos := s.rowBytes_pos hbytes hwidth.1
  unfold byteCapacity
  unfold rowBytes bankBytes at *
  cases hlayout : s.layout with
  | dense =>
    simp only [hlayout] at hlt hpos
    simp only
    rw [divide_ok, wrap32_of_lt hlt]
    exact ⟨by omega, rfl⟩
  | surfaces =>
    simp only [hlayout] at hlt hpos
    have hatoms := le_ceilDiv_mul (inputWidth * s.cbufAtoms) (show 0 < cbufAtomsPerEntry by decide)
    unfold featureAtomBytes at hlt hpos
    simp only
    rw [divide_ok, wrap32_of_lt (n := inputWidth * s.cbufAtoms) (by omega), featureAtomBytes,
      wrap32_of_lt hlt]
    exact ⟨by omega, rfl⟩

/-- The row capacity under a number of data banks. -/
def rowCapacity (s : Shape) (inputWidth dataBanks : Nat) : Nat :=
  min (dataBanks * s.bankBytes / s.rowBytes inputWidth)
    (maxDataEntries / s.cbufInputWidth inputWidth)

theorem capacity_eq (s : Shape) (hbytes : s.layout = .dense → 0 < s.precision.elementBytes)
    {inputWidth dataBanks : Nat} (hbanks : 1 ≤ dataBanks ∧ dataBanks < cbufBanks)
    (hwidth : 1 ≤ inputWidth ∧ inputWidth ≤ s.width) (hrow : s.rowBytes s.width < 2 ^ 32) :
    s.maxTileInputRowsForWidthAndDataBanks inputWidth dataBanks =
      .ok (s.rowCapacity inputWidth dataBanks) := by
  unfold maxTileInputRowsForWidthAndDataBanks
  simp only [bind_ok, assertThat_ok, pure_ok, exists_const]
  exact ⟨hbanks, hwidth, _, s.byteCapacity_eq hbytes hwidth hrow, rfl⟩

/-- Rows whose bytes and entries fit are within the capacity. -/
theorem le_rowCapacity (s : Shape) (hbytes : s.layout = .dense → 0 < s.precision.elementBytes)
    {inputWidth dataBanks rows : Nat} (hwidth : 0 < inputWidth)
    (hfit : rows * s.rowBytes inputWidth ≤ dataBanks * s.bankBytes)
    (hentries : rows * s.cbufInputWidth inputWidth ≤ maxDataEntries) :
    rows ≤ s.rowCapacity inputWidth dataBanks :=
  Nat.le_min.mpr ⟨(Nat.le_div_iff_mul_le (s.rowBytes_pos hbytes hwidth)).mpr hfit,
    (Nat.le_div_iff_mul_le (hwidth.trans_le (s.le_cbufInputWidth _))).mpr hentries⟩

end Shape

/-! ### Columns -/

section Columns

variable {policy : PlanningPolicy} {shape : Shape} {kernels : Kernels}

/-- A range inside the output is cut into a column. -/
theorem fromOutputRange_isOk (shape : Shape) (kernels : Kernels) {a n : Nat} (hn : 0 < n)
    (hle : a + n ≤ shape.outputWidth kernels) :
    ∃ c, ColumnTile.fromOutputRange shape kernels a n = .ok c := by
  unfold ColumnTile.fromOutputRange
  simp only [bind_ok, assertThat_ok, pure_ok, exists_const]
  exact ⟨_, ⟨hn, hle⟩, rfl⟩

theorem splitFrom_isOk (shape : Shape) (kernels : Kernels) (widths : List Nat) : ∀ {a : Nat}, (∀ n ∈ widths, 0 < n) →
    a + widths.sum ≤ shape.outputWidth kernels →
      ∃ cols, ColumnTile.splitFrom shape kernels a widths = .ok cols := by
  induction widths with
  | nil => exact fun _ _ => ⟨[], rfl⟩
  | cons n widths ih =>
    intro a hpos hsum
    rw [List.sum_cons] at hsum
    obtain ⟨c, hc⟩ := fromOutputRange_isOk shape kernels (hpos n List.mem_cons_self)
      (show a + n ≤ shape.outputWidth kernels by omega)
    obtain ⟨rest, hrest⟩ := ih (a := a + n) (fun m hm => hpos m (List.mem_cons_of_mem _ hm)) (by omega)
    refine ⟨c :: rest, ?_⟩
    rw [ColumnTile.splitFrom]
    simp only [bind_ok, pure_ok]
    exact ⟨c, hc, rest, hrest, rfl⟩

theorem splitFrom_outCols (widths : List Nat) : ∀ {a : Nat} {cols : List ColumnTile},
    ColumnTile.splitFrom shape kernels a widths = .ok cols →
      cols.map ColumnTile.outCols = widths := by
  induction widths with
  | nil =>
    intro a cols h
    rw [ColumnTile.splitFrom, pure_ok] at h
    rw [← h]
    rfl
  | cons n widths ih =>
    intro a cols h
    rw [ColumnTile.splitFrom] at h
    simp only [bind_ok, pure_ok] at h
    obtain ⟨c, hc, rest, hrest, rfl⟩ := h
    rw [List.map_cons, (ColumnTile.fromOutputRange_ok hc).2.1, ih hrest]

/-- The widths of the first `k` balanced columns. -/
theorem sum_take_balancedColumnWidths (outputWidth columns k : Nat) :
    ((List.range k).map fun index =>
        outputWidth / columns + if index < outputWidth % columns then 1 else 0).sum =
      k * (outputWidth / columns) + min k (outputWidth % columns) := by
  induction k with
  | zero => simp
  | succ k ih =>
    rw [List.range_succ, List.map_append, List.sum_append, ih, List.map_singleton,
      List.sum_singleton]
    exact Tile.splitRows_sum outputWidth columns k

theorem balancedColumnWidths_sum (outputWidth : Nat) {columns : Nat} (h : 0 < columns) :
    (balancedColumnWidths outputWidth columns).sum = outputWidth := by
  have hmod := Nat.mod_lt outputWidth h
  have hdiv := Nat.div_add_mod outputWidth columns
  unfold balancedColumnWidths
  rw [sum_take_balancedColumnWidths, Nat.min_eq_right (by omega)]
  exact hdiv

theorem balancedColumnWidths_pos {outputWidth columns n : Nat} (h : 0 < columns)
    (hle : columns ≤ outputWidth) (hn : n ∈ balancedColumnWidths outputWidth columns) : 0 < n := by
  obtain ⟨index, -, rfl⟩ := List.mem_map.mp hn
  exact Tile.splitRows_pos index h hle

theorem balancedColumns_isOk (shape : Shape) (kernels : Kernels) {n : Nat} (hn : 0 < n) (hle : n ≤ shape.outputWidth kernels) :
    ∃ cols, balancedColumns shape kernels n = .ok cols := by
  have hsum := balancedColumnWidths_sum (shape.outputWidth kernels) hn
  obtain ⟨cols, hcols⟩ := splitFrom_isOk shape kernels
    (balancedColumnWidths (shape.outputWidth kernels) n) (a := 0)
    (fun m hm => balancedColumnWidths_pos hn hle hm) (by omega)
  refine ⟨cols, ?_⟩
  unfold balancedColumns ColumnTile.split
  simp only [bind_ok, assertThat_ok, exists_const]
  refine ⟨fun hnil => ?_, hsum, hcols⟩
  rw [hnil] at hsum
  have := shape.outputWidth_pos kernels
  simp at hsum
  omega

/-- The finest balanced partition has one output a column. -/
theorem balancedColumns_finest {cols : List ColumnTile}
    (h : balancedColumns shape kernels (shape.outputWidth kernels) = .ok cols) :
    ∀ c ∈ cols, ColumnTile.fromOutputRange shape kernels c.outFirst 1 = .ok c := by
  intro c hc
  have hbounds := (ColumnTile.split_cover h).2 c hc
  unfold balancedColumns ColumnTile.split at h
  simp only [bind_ok, assertThat_ok, exists_const] at h
  have hmem := List.mem_map_of_mem (f := ColumnTile.outCols) hc
  rw [splitFrom_outCols _ h.2.2] at hmem
  obtain ⟨index, -, hone⟩ := List.mem_map.mp hmem
  rw [Nat.div_self (shape.outputWidth_pos kernels), Nat.mod_self, if_neg (Nat.not_lt_zero _)] at hone
  rwa [← hone] at hbounds

/-- A column reads at least one input column, and none outside the image. -/
theorem inCols_bounds (hs : shape.WellFormed policy) (hk : KernelFits shape kernels) {c : ColumnTile}
    (h : ColumnTile.fromOutputRange shape kernels c.outFirst c.outCols = .ok c) :
    1 ≤ c.inCols ∧ c.inCols ≤ shape.width := by
  obtain ⟨window, -, -, -, hcount, -⟩ := ColumnTile.columnWindow hs hk h
  have hinside := window.inside
  have hpos := window.nonempty
  omega

/-- On a surface layout a grid over any columns is either made or turned down. -/
theorem planColumns_isOk (hs : shape.WellFormed policy) (hk : KernelFits shape kernels)
    (hsurf : shape.layout = .surfaces) (hbytes : shape.layout = .dense → 0 < shape.precision.elementBytes)
    (hrow : shape.rowBytes shape.width < 2 ^ 32) {dataBanks : Nat}
    (hbanks : 1 ≤ dataBanks ∧ dataBanks < cbufBanks) (cols : List ColumnTile) :
    (∀ c ∈ cols, ColumnTile.fromOutputRange shape kernels c.outFirst c.outCols = .ok c) →
      ∃ result, planColumns shape kernels dataBanks cols = .ok result := by
  induction cols with
  | nil => exact fun _ => ⟨some [], rfl⟩
  | cons c cols ih =>
    intro hbounds
    have hwidth := inCols_bounds hs hk (hbounds c List.mem_cons_self)
    obtain ⟨rest, hrest⟩ := ih fun c' hc' => hbounds c' (List.mem_cons_of_mem _ hc')
    rw [planColumns]
    split_ifs with hwide
    · exact ⟨none, rfl⟩
    · simp only [bind_ok, shape.capacity_eq hbytes hbanks hwidth hrow, rowTiles_surfaces hsurf]
      cases hgreedy : Tile.splitGreedyToCapacity shape kernels
          (min (shape.rowCapacity c.inCols dataBanks) (shape.maxFeatureGrainInputRows kernels)) with
      | none => exact ⟨none, _, rfl, _, rfl, by simp [hgreedy]; rfl⟩
      | some rows =>
        cases rest with
        | none => exact ⟨none, _, rfl, _, rfl, by simp [hgreedy, hrest, bind_ok]; rfl⟩
        | some tiles =>
          exact ⟨some (rows.map (fun r => ⟨r, c⟩) ++ tiles), _, rfl, _, rfl, by
            simp [hgreedy, hrest, bind_ok]; rfl⟩

/-- The search over balanced partitions ends at the finest, at the latest. -/
theorem balancedSearch_isOk (hs : shape.WellFormed policy) (hk : KernelFits shape kernels)
    (hsurf : shape.layout = .surfaces) (hbytes : shape.layout = .dense → 0 < shape.precision.elementBytes)
    (hrow : shape.rowBytes shape.width < 2 ^ 32) {dataBanks : Nat} (weightBanks : Nat)
    (hbanks : 1 ≤ dataBanks ∧ dataBanks < cbufBanks)
    (hone : ∀ c, ColumnTile.fromOutputRange shape kernels c.outFirst 1 = .ok c →
      ColumnFits shape kernels dataBanks c) (rest : Nat) :
    ∀ count : Nat, 0 < count → 0 < rest → count + rest = shape.outputWidth kernels + 1 →
      ∃ plan, ConvPlan.balancedSearch shape kernels dataBanks weightBanks count rest = .ok plan := by
  induction rest with
  | zero => exact fun _ _ h => absurd h (Nat.lt_irrefl 0)
  | succ rest ih =>
    intro count hcount _ hsum
    obtain ⟨cols, hcols⟩ := balancedColumns_isOk shape kernels hcount
      (show count ≤ shape.outputWidth kernels by omega)
    obtain ⟨result, hresult⟩ := planColumns_isOk hs hk hsurf hbytes hrow hbanks cols
      (ColumnTile.split_cover hcols).2
    rw [ConvPlan.balancedSearch, planGrid]
    unfold balancedColumns at hcols
    simp only [bind_ok]
    cases result with
    | some tiles => exact ⟨_, some tiles, ⟨cols, hcols, hresult⟩, rfl⟩
    | none =>
      have hmore : 0 < rest := by
        by_contra hlast
        obtain rfl : count = shape.outputWidth kernels := by omega
        exact planColumns_none hk hs.stride_pos hsurf cols hresult fun c hc =>
          hone c (balancedColumns_finest hcols c hc)
      obtain ⟨plan, hplan⟩ := ih (count + 1) (Nat.succ_pos count) hmore (by omega)
      exact ⟨plan, none, ⟨cols, hcols, hresult⟩, hplan⟩

/-- **Surface layouts plan.** Where columns of one output fit, a surface layout without a captured
partition is planned. -/
theorem newWithCbufPartition_surfaces (hs : shape.WellFormed policy) (hk : KernelFits shape kernels)
    (hsurf : shape.layout = .surfaces) (hbytes : shape.layout = .dense → 0 < shape.precision.elementBytes)
    (hrow : shape.rowBytes shape.width < 2 ^ 32) {dataBanks weightBanks : Nat}
    (hbanks : 1 ≤ dataBanks ∧ dataBanks < cbufBanks)
    (hcaptured : capturedColumnPartition shape kernels = none)
    (hone : ∀ c, ColumnTile.fromOutputRange shape kernels c.outFirst 1 = .ok c →
      ColumnFits shape kernels dataBanks c) :
    ∃ plan, ConvPlan.newWithCbufPartition shape kernels dataBanks weightBanks = .ok plan := by
  have hpos := shape.outputWidth_pos kernels
  obtain ⟨cols, hcols⟩ := balancedColumns_isOk shape kernels Nat.one_pos
    (show 1 ≤ shape.outputWidth kernels by omega)
  obtain ⟨result, hresult⟩ := planColumns_isOk hs hk hsurf hbytes hrow hbanks cols
    (ColumnTile.split_cover hcols).2
  unfold ConvPlan.newWithCbufPartition
  rw [← balancedColumnWidths_one]
  simp only [planGrid, bind_ok]
  cases result with
  | some tiles => exact ⟨_, some tiles, ⟨cols, hcols, hresult⟩, rfl⟩
  | none =>
    have hmany : 1 < shape.outputWidth kernels := by
      by_contra hlast
      have hwidth : shape.outputWidth kernels = 1 := by omega
      rw [← hwidth] at hcols
      exact planColumns_none hk hs.stride_pos hsurf cols hresult fun c hc =>
        hone c (balancedColumns_finest hcols c hc)
    obtain ⟨plan, hplan⟩ := balancedSearch_isOk hs hk hsurf hbytes hrow weightBanks hbanks hone
      (shape.outputWidth kernels - 1) 2 (by decide) (by omega) (by omega)
    refine ⟨plan, none, ⟨cols, hcols, hresult⟩, ?_⟩
    simp only [bind_ok, refuseUnless_ok, exists_const, hcaptured]
    exact ⟨hsurf, hplan⟩

/-! ### Dense rows -/

theorem firstUniformSplit_isOk (shape : Shape) (kernels : Kernels) (maxRows rest : Nat) :
    ∀ count : Nat, 0 < count → count + rest ≤ shape.outputHeight kernels + 1 →
      ∃ result, firstUniformSplit shape kernels maxRows count rest = .ok result := by
  induction rest with
  | zero => exact fun _ _ _ => ⟨none, rfl⟩
  | succ rest ih =>
    intro count hcount hle
    have hsplit : Tile.split shape kernels count =
        .ok (Tile.splitFrom shape kernels count 0 0 count) := by
      unfold Tile.split
      simp only [bind_ok, assertThat_ok, pure_ok, exists_const, and_true]
      omega
    obtain ⟨result, hresult⟩ := ih (count + 1) (Nat.succ_pos count) (by omega)
    rw [firstUniformSplit]
    simp only [bind_ok, hsplit, Except.ok.injEq, exists_eq_left']
    split_ifs with hfit
    · cases hr : realignDenseRowTiles shape kernels
          (Tile.splitFrom shape kernels count 0 0 count) maxRows with
      | some realigned => exact ⟨some realigned, rfl⟩
      | none => exact ⟨result, hresult⟩
    · exact ⟨result, hresult⟩

theorem rowTiles_isOk (shape : Shape) (kernels : Kernels) (maxRows : Nat) :
    ∃ result, rowTiles shape kernels maxRows = .ok result := by
  unfold rowTiles
  cases Tile.splitGreedyToCapacity shape kernels maxRows with
  | none => exact ⟨none, rfl⟩
  | some greedy =>
    simp only
    cases realignDenseRowTiles shape kernels greedy maxRows with
    | some realigned => exact ⟨some realigned, rfl⟩
    | none =>
      exact firstUniformSplit_isOk shape kernels maxRows (shape.outputHeight kernels) 1 (by decide)
        (by omega)

/-- Where every row is safe the realignment moves no boundary. -/
theorem realignBoundaries_safe (hsafe : ∀ row, shape.denseFeatureOffsetSafe row) :
    ∀ {l : List Nat} {previous : Nat}, List.IsChain (· < ·) (previous :: l) →
      realignBoundaries shape kernels previous l = some l
  | [], _, _ => rfl
  | [last], _, _ => rfl
  | current :: next :: rest, previous, hchain => by
    obtain ⟨hprev, htail⟩ := List.isChain_cons_cons.mp hchain
    obtain ⟨hnext, -⟩ := List.isChain_cons_cons.mp htail
    have hplace : placeBoundary shape kernels (previous + 1) current (next - 1) = some current :=
      if_pos (hsafe _)
    rw [realignBoundaries, if_neg (by omega)]
    simp only [hplace, realignBoundaries_safe hsafe htail, Option.bind_eq_bind, Option.bind_some,
      Option.pure_def]

/-- Where every row is safe a row cover within the capacity is kept. -/
theorem realign_safe (hsafe : ∀ row, shape.denseFeatureOffsetSafe row) {tiles : List Tile}
    {maxRows : Nat} (hcover : RowCover shape kernels tiles) (hrows : ∀ t ∈ tiles, t.inRows ≤ maxRows) :
    realignDenseRowTiles shape kernels tiles maxRows = some tiles := by
  unfold realignDenseRowTiles
  split_ifs with hkeep
  · rfl
  · obtain ⟨starts, hstarts, hchain⟩ :=
      hcover.covers.starts_chain (hcover.covers.ne_nil (shape.outputHeight_pos kernels))
    have hcut : cutAt (fun a b => Tile.fromBounds shape kernels a (b - a)) 0
        (starts ++ [shape.outputHeight kernels]) = tiles := by
      refine hcover.covers.cutAt_starts (fun t ht => ?_) hstarts
      rw [Nat.add_sub_cancel_left]
      exact (hcover.bounds t ht).symm
    have hall : tiles.all (fun tile => decide (tile.inRows ≤ maxRows)) = true :=
      List.all_eq_true.mpr fun t ht => decide_eq_true (hrows t ht)
    simp only [hstarts, realignBoundaries_safe hsafe hchain, hcut, hall, Option.bind_eq_bind,
      Option.bind_some, if_true]

/-- What suffices for a dense layout's rows: the image fits the capacity, or one kernel span does and
every row begins at a feature atom. -/
def DenseRowsFit (shape : Shape) (kernels : Kernels) (maxRows : Nat) : Prop :=
  (Tile.whole shape kernels).inRows ≤ maxRows ∨
    (max kernels.1 shape.stride ≤ maxRows ∧ shape.inputRowStride % featureAtomBytes = 0)

theorem rowTiles_of_denseRowsFit (hk : KernelFits shape kernels) (hstride : 0 < shape.stride)
    {maxRows : Nat} (h : DenseRowsFit shape kernels maxRows) :
    ∃ rows, rowTiles shape kernels maxRows = .ok (some rows) := by
  have hfit : RowsFit shape kernels maxRows := h.imp id And.left
  obtain ⟨greedy, hgreedy⟩ := (Tile.splitGreedy_isSome_iff hk hstride maxRows).mpr hfit
  obtain ⟨hcover, hrows⟩ := Tile.splitGreedy_cover hgreedy
  have hrealign : ∃ tiles, realignDenseRowTiles shape kernels greedy maxRows = some tiles := by
    rcases h with hwhole | ⟨-, haligned⟩
    · have hone : greedy = [Tile.whole shape kernels] := by
        unfold Tile.whole at hwhole
        simp only [Tile.splitGreedyToCapacity, if_pos hwhole] at hgreedy
        exact (Option.some.inj hgreedy).symm
      refine ⟨greedy, ?_⟩
      rw [realignDenseRowTiles, if_pos (.inr (by rw [hone]; exact le_rfl))]
    · refine ⟨greedy, realign_safe (fun row => ?_) hcover hrows⟩
      unfold Shape.denseFeatureOffsetSafe
      cases shape.layout with
      | surfaces => rfl
      | dense =>
        simp only
        rw [Nat.mul_mod, haligned, Nat.mul_zero, Nat.zero_mod]
        rfl
  obtain ⟨tiles, htiles⟩ := hrealign
  refine ⟨tiles, ?_⟩
  unfold rowTiles
  simp only [hgreedy, htiles]
  rfl

/-- The refusal of a dense layout that does not plan as it stands. -/
def horizontalTilingRefusal : PlanError :=
  ⟨.unvalidatedConfiguration,
    "convolution needs horizontal tiling, which is only capture-backed for NC1HWC2 surfaces"⟩

/-- The rows of a full-width tile under a number of data banks. -/
def Shape.fullWidthRows (s : Shape) (kernels : Kernels) (dataBanks : Nat) : Nat :=
  min (s.rowCapacity s.width dataBanks) (s.maxFeatureGrainInputRows kernels)

/-- The full-width grid of a dense layout is the row tiles of its one column. -/
theorem planGrid_dense (hdense : shape.layout = .dense) (hwidth : 0 < shape.width)
    (hbytes : shape.layout = .dense → 0 < shape.precision.elementBytes)
    (hrow : shape.rowBytes shape.width < 2 ^ 32)
    {dataBanks : Nat} (hbanks : 1 ≤ dataBanks ∧ dataBanks < cbufBanks) {result : Option (List Tile)}
    (hrows : rowTiles shape kernels (shape.fullWidthRows kernels dataBanks) = .ok result) :
    ∃ c : ColumnTile, planGrid shape kernels [shape.outputWidth kernels] dataBanks =
      .ok (result.map fun rows => rows.map fun r => ⟨r, c⟩) := by
  have hpos := shape.outputWidth_pos kernels
  obtain ⟨c, hc⟩ := fromOutputRange_isOk shape kernels (a := 0) hpos (by omega)
  obtain ⟨hfirst, hcols, -⟩ := ColumnTile.fromOutputRange_ok hc
  have hfull : c.inCols = shape.width :=
    ColumnTile.inCols_of_full (by rw [hfirst, hcols]; exact hc) hfirst hcols
  have hmax : shape.maxTileInputWidth = shape.width := by
    unfold Shape.maxTileInputWidth
    simp [hdense]
  have hsplit : ColumnTile.split shape kernels [shape.outputWidth kernels] = .ok [c] := by
    unfold ColumnTile.split ColumnTile.splitFrom ColumnTile.splitFrom
    simp [bind_ok, assertThat_ok, hc]
  refine ⟨c, ?_⟩
  unfold planGrid
  simp only [bind_ok]
  refine ⟨[c], hsplit, ?_⟩
  rw [planColumns, if_neg (by omega)]
  simp only [bind_ok, hfull, shape.capacity_eq hbytes hbanks ⟨hwidth, le_rfl⟩ hrow]
  refine ⟨_, rfl, result, hrows, ?_⟩
  cases result with
  | none => rfl
  | some rows =>
    simp [planColumns]
    rfl

/-- **Dense layouts plan or ask for columns.** A dense layout is planned as one column of row tiles,
or refused for the columns it would need; it is planned where its rows fit, and refused where not even
one kernel span does. -/
theorem newWithCbufPartition_dense (hs : shape.WellFormed policy) (hk : KernelFits shape kernels)
    (hdense : shape.layout = .dense) (hbytes : shape.layout = .dense → 0 < shape.precision.elementBytes)
    (hrow : shape.rowBytes shape.width < 2 ^ 32) {dataBanks : Nat} (weightBanks : Nat)
    (hbanks : 1 ≤ dataBanks ∧ dataBanks < cbufBanks) :
    (∃ plan, ConvPlan.newWithCbufPartition shape kernels dataBanks weightBanks = .ok plan ∧
        RowsFit shape kernels (shape.fullWidthRows kernels dataBanks)) ∨
      (ConvPlan.newWithCbufPartition shape kernels dataBanks weightBanks =
          .error (.refused horizontalTilingRefusal) ∧
        ¬ DenseRowsFit shape kernels (shape.fullWidthRows kernels dataBanks)) := by
  obtain ⟨result, hresult⟩ := rowTiles_isOk shape kernels (shape.fullWidthRows kernels dataBanks)
  obtain ⟨c, hgrid⟩ := planGrid_dense hdense hs.width_pos hbytes hrow hbanks hresult
  unfold ConvPlan.newWithCbufPartition
  simp only [hgrid]
  cases result with
  | some rows =>
    refine .inl ⟨_, rfl, (Tile.splitGreedy_isSome_iff hk hs.stride_pos _).mp ?_⟩
    unfold rowTiles at hresult
    cases hg : Tile.splitGreedyToCapacity shape kernels (shape.fullWidthRows kernels dataBanks) with
    | some greedy => exact ⟨greedy, rfl⟩
    | none => rw [hg] at hresult; cases hresult
  | none =>
    refine .inr ⟨?_, fun hfit => ?_⟩
    · have hne : ¬ shape.layout = .surfaces := by
        rw [hdense]
        decide
      show (refuseUnless (shape.layout = .surfaces) _ _ >>= _) = _
      rw [refuseUnless, if_neg hne]
      rfl
    · obtain ⟨rows, hrows⟩ := rowTiles_of_denseRowsFit hk hs.stride_pos hfit
      rw [hrows] at hresult
      cases hresult

end Columns

/-! ### The demand-based partition -/

theorem weightBanksFloor_bounds (weightChannels : Nat) :
    3 ≤ weightBanksFloor weightChannels ∧ weightBanksFloor weightChannels ≤ 5 := by
  unfold weightBanksFloor
  split_ifs <;> omega

theorem dataBankDemand_pos (s : Shape) : 0 < s.dataBankDemand := by
  unfold Shape.dataBankDemand
  omega

theorem weightBankDemand_pos (s : Shape) (kernels : Kernels) : 0 < s.weightBankDemand kernels := by
  unfold Shape.weightBankDemand
  omega

/-- The demand-only grant leaves a bank to each side, and the data get what the coefficients do not
want, if they want it. -/
theorem demandGrant_spec (s : Shape) (kernels : Kernels) :
    (1 ≤ s.demandGrant kernels ∧ s.demandGrant kernels < cbufBanks) ∧
      min s.dataBankDemand (cbufBanks - s.weightBankDemand kernels) ≤ s.demandGrant kernels := by
  have hd := dataBankDemand_pos s
  have hw := weightBankDemand_pos s kernels
  unfold Shape.demandGrant cbufBanks
  simp only
  split_ifs <;> omega

/-- **The demand-based partition.** It is refused only for a coefficient working set that no bank
holds. Its data banks are between one and eleven, and cover the data's demand, what the coefficients
leave of the buffer, or what their working set leaves of it; and data that ask for two banks get two,
unless the working set takes eleven. -/
theorem tryDemandBasedCbufPartition_isOk {s : Shape} {kernels : Kernels}
    (hbytes : s.layout = .dense → 0 < s.precision.elementBytes) (hwidth : 0 < s.width)
    (hrow : s.rowBytes s.width < 2 ^ 32)
    (hpref : streamedWeightBankPreference s.streamedContractionChannels kernels
      s.precision.elementBits < cbufBanks) :
    ∃ dataBanks weightBanks, s.tryDemandBasedCbufPartition kernels = .ok (dataBanks, weightBanks) ∧
      (1 ≤ dataBanks ∧ dataBanks < cbufBanks) ∧
      min s.dataBankDemand (min (cbufBanks - s.weightBankDemand kernels) (cbufBanks -
        max 5 (streamedWeightBankPreference s.streamedContractionChannels kernels
          s.precision.elementBits))) ≤ dataBanks ∧
      (streamedWeightBankPreference s.streamedContractionChannels kernels s.precision.elementBits ≤
        10 → min s.dataBankDemand 2 ≤ dataBanks) := by
  obtain ⟨hgrant, hmin⟩ := demandGrant_spec s kernels
  have hfloor := weightBanksFloor_bounds s.weightChannels
  have hd := dataBankDemand_pos s
  have hcap : ∀ banks, 1 ≤ banks ∧ banks < cbufBanks →
      s.maxTileInputRowsForDataBanks banks = .ok (s.rowCapacity s.width banks) := fun banks h =>
    s.capacity_eq hbytes h ⟨hwidth, le_rfl⟩ hrow
  have hwhole : 1 ≤ min s.dataBankDemand (cbufBanks - 1) ∧
      min s.dataBankDemand (cbufBanks - 1) < cbufBanks := by
    unfold cbufBanks
    omega
  unfold Shape.tryDemandBasedCbufPartition
  simp only [refuseUnless, if_pos hpref, hcap _ hgrant, hcap _ hwhole, bind, Except.bind]
  unfold cbufBanks at *
  generalize streamedWeightBankPreference s.streamedContractionChannels kernels
    s.precision.elementBits = pref at *
  have hfloor : 1 ≤ max (weightBanksFloor s.weightChannels) pref ∧
      max (weightBanksFloor s.weightChannels) pref ≤ max 5 pref := by omega
  have hlimit : max 5 pref ≤ 11 := by omega
  generalize max (weightBanksFloor s.weightChannels) pref = floor at *
  -- Where the coefficients are capped at the floor, the data get what the floor leaves.
  have hcapped : (1 ≤ 12 - min floor (12 - 1) ∧ 12 - min floor (12 - 1) < 12) ∧
      min s.dataBankDemand (min (12 - s.weightBankDemand kernels) (12 - max 5 pref)) ≤
        12 - min floor (12 - 1) ∧
      (pref ≤ 10 → min s.dataBankDemand 2 ≤ 12 - min floor (12 - 1)) := by
    rw [Nat.min_eq_left (show floor ≤ 12 - 1 by omega)]
    refine ⟨by omega, (min_le_right _ _).trans ((min_le_right _ _).trans (by omega)), fun h => ?_⟩
    exact (min_le_right _ _).trans (by omega)
  split_ifs with hstarved hclamped hupgrade
  · exact ⟨_, _, rfl, hcapped⟩
  · exact ⟨_, _, rfl, hcapped⟩
  · refine ⟨_, _, rfl, hwhole, ?_, fun _ => ?_⟩
    · exact le_min (min_le_left _ _) ((min_le_right _ _).trans ((min_le_right _ _).trans (by omega)))
    · exact min_le_min_left _ (by decide)
  · refine ⟨_, _, rfl, hgrant, ?_, fun h => ?_⟩
    · exact (min_le_min_left _ (min_le_left _ _)).trans hmin
    · -- A single bank that the coefficients do not starve is all the data ask for.
      clear hcapped hclamped hupgrade hwhole hcap
      by_cases hone : s.demandGrant kernels = 1
      · have hweights : s.weightBankDemand kernels ≤ pref := by omega
        omega
      · exact (min_le_right _ _).trans (by omega)

end IreeRocket.Conv
