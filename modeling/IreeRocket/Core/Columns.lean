import IreeRocket.Core.CbufFits

/-!
# Which column partition the planner settles on

The greedy row filler succeeds exactly when the whole image fits the capacity or one output row
does at its full kernel span (`splitGreedy_isSome_iff`). On a surface layout nothing else can turn a
column down, so a partition is accepted exactly when each of its columns passes the width bound and
that test (`planColumns_surfaces`), and the plan uses the fewest balanced columns that do
(`newWithCbufPartition_columns`).
-/

namespace IreeRocket.Conv

open Segments

/-- A row capacity that can hold the image, or any one output row with its halo. -/
def RowsFit (shape : Shape) (kernels : Kernels) (maxRows : Nat) : Prop :=
  (Tile.whole shape kernels).inRows ≤ maxRows ∨ max kernels.1 shape.stride ≤ maxRows

instance (shape : Shape) (kernels : Kernels) (maxRows : Nat) :
    Decidable (RowsFit shape kernels maxRows) :=
  inferInstanceAs (Decidable (_ ∨ _))

namespace Tile

theorem findDown_isSome (fits : Nat → Bool) {n : Nat} (hn : 0 < n) (h : fits 1 = true) :
    ∃ k, findDown fits n = some k := by
  induction n with
  | zero => omega
  | succ n ih =>
    rw [findDown]
    by_cases hfit : fits (n + 1) = true
    · exact ⟨n + 1, if_pos hfit⟩
    · rw [if_neg hfit]
      have hpos : 0 < n := by
        rcases Nat.eq_zero_or_pos n with rfl | hpos
        · exact absurd h hfit
        · exact hpos
      exact ih hpos

/-- One output row charges at most its full kernel span, or one stride block. -/
theorem capacityRows_one_le (shape : Shape) (kernels : Kernels) (a : Nat) (hk : 0 < kernels.1) :
    capacityRows shape kernels a 1 ≤ max kernels.1 shape.stride := by
  unfold capacityRows Shape.tileInFirst
  simp only [Nat.add_sub_cancel, kernelProgramming_height, Nat.one_mul]
  omega

/-- The filler never runs out of rounds: each takes a row. -/
theorem greedyFrom_isSome {shape : Shape} {kernels : Kernels} {maxRows : Nat} (hk : 0 < kernels.1)
    (hfit : max kernels.1 shape.stride ≤ maxRows) (fuel : Nat) : ∀ a : Nat,
    shape.outputHeight kernels ≤ a + fuel →
    ∃ tiles, greedyFrom shape kernels maxRows fuel a = some tiles := by
  induction fuel with
  | zero =>
    intro a ha
    exact ⟨[], by rw [greedyFrom, if_neg (by omega)]⟩
  | succ fuel ih =>
    intro a ha
    rw [greedyFrom]
    by_cases hlt : a < shape.outputHeight kernels
    · rw [if_pos hlt]
      have hone : decide (capacityRows shape kernels a 1 ≤ maxRows) = true :=
        decide_eq_true ((capacityRows_one_le shape kernels a hk).trans hfit)
      obtain ⟨k, hk⟩ := findDown_isSome
        (fun n => decide (capacityRows shape kernels a n ≤ maxRows))
        (show 0 < shape.outputHeight kernels - a by omega) hone
      have hpos := (findDown_some hk).2.1
      obtain ⟨rest, hrest⟩ := ih (a + k) (by omega)
      refine ⟨fromBounds shape kernels a k :: rest, ?_⟩
      simp only [hk, hrest, Option.bind_eq_bind, Option.bind_some, Option.pure_def]
    · rw [if_neg hlt]
      exact ⟨[], rfl⟩

/-- The last tile of the filler's cover charges at most the capacity. -/
theorem greedyFrom_last {shape : Shape} {kernels : Kernels} {maxRows : Nat} (fuel : Nat) :
    ∀ {a : Nat} {tiles : List Tile}, a < shape.outputHeight kernels →
      greedyFrom shape kernels maxRows fuel a = some tiles →
      ∃ b n, a ≤ b ∧ 0 < n ∧ b + n = shape.outputHeight kernels ∧
        capacityRows shape kernels b n ≤ maxRows := by
  induction fuel with
  | zero =>
    intro a tiles ha h
    rw [greedyFrom, if_pos ha] at h
    cases h
  | succ fuel ih =>
    intro a tiles ha h
    rw [greedyFrom, if_pos ha] at h
    simp only [Option.bind_eq_bind, Option.bind_eq_some_iff, Option.pure_def,
      Option.some.injEq] at h
    obtain ⟨n, hfind, rest, hrest, -⟩ := h
    obtain ⟨hfits, hpos, hle⟩ := findDown_some hfind
    by_cases hend : a + n = shape.outputHeight kernels
    · exact ⟨a, n, le_rfl, hpos, hend, of_decide_eq_true hfits⟩
    · obtain ⟨b, m, hab, hm, hbm, hcap⟩ := ih (by omega) hrest
      exact ⟨b, m, by omega, hm, hbm, hcap⟩

/-- The output height is the last one whose first tap is inside the padded image. -/
theorem outputHeight_gap (shape : Shape) (kernels : Kernels) (hstride : 0 < shape.stride) :
    (shape.outputHeight kernels - 1) * shape.stride ≤
        shape.height + 2 * (shape.kernelProgramming kernels).padTop - kernels.1 ∧
      shape.height + 2 * (shape.kernelProgramming kernels).padTop - kernels.1 <
        (shape.outputHeight kernels - 1) * shape.stride + shape.stride := by
  unfold Shape.outputHeight
  simp only [kernelProgramming_height, Nat.add_sub_cancel]
  have hdiv := Nat.div_add_mod
    (shape.height + 2 * (shape.kernelProgramming kernels).padTop - kernels.1) shape.stride
  have hmod := Nat.mod_lt
    (shape.height + 2 * (shape.kernelProgramming kernels).padTop - kernels.1) hstride
  rw [Nat.mul_comm] at hdiv
  omega

/-- A last tile that fits although the whole image does not holds a full kernel span. -/
theorem span_le_of_last {shape : Shape} {kernels : Kernels} (hk : KernelFits shape kernels)
    (hstride : 0 < shape.stride) {maxRows b n : Nat} (hn : 0 < n)
    (hbn : b + n = shape.outputHeight kernels)
    (hwhole : ¬ (fromBounds shape kernels 0 (shape.outputHeight kernels)).inRows ≤ maxRows)
    (hcap : capacityRows shape kernels b n ≤ maxRows) : max kernels.1 shape.stride ≤ maxRows := by
  obtain ⟨hlow, hhigh⟩ := outputHeight_gap shape kernels hstride
  have hheight := hk.height_fits
  have hpad := hk.padTop_lt
  have hrows : shape.outputHeight kernels * shape.stride =
      (shape.outputHeight kernels - 1) * shape.stride + shape.stride := by
    have := shape.outputHeight_pos kernels
    rw [← Nat.succ_mul, Nat.succ_eq_add_one, Nat.sub_add_cancel this]
  have hstep : shape.stride ≤ n * shape.stride := Nat.le_mul_of_pos_left _ hn
  have hfirst : b * shape.stride ≤ (shape.outputHeight kernels - 1) * shape.stride :=
    Nat.mul_le_mul_right _ (by omega)
  unfold fromBounds Shape.tileInFirst at hwhole
  unfold capacityRows Shape.tileInFirst at hcap
  simp only [kernelProgramming_height, Nat.zero_mul, Nat.zero_add, hbn] at hwhole hcap
  -- A last tile that is the only one charges every output row; one further down begins at least a
  -- stride below the edge, where the clipped image would have been shorter than the stride.
  rcases Nat.eq_zero_or_pos b with rfl | hb
  · rw [show n = shape.outputHeight kernels by omega] at hcap
    omega
  · have hbs : shape.stride ≤ b * shape.stride := Nat.le_mul_of_pos_left _ hb
    omega

/-- **When the filler succeeds.** The image fits, or a full kernel span and a stride block do. -/
theorem splitGreedy_isSome_iff {shape : Shape} {kernels : Kernels} (hk : KernelFits shape kernels)
    (hstride : 0 < shape.stride) (maxRows : Nat) :
    (∃ tiles, splitGreedyToCapacity shape kernels maxRows = some tiles) ↔
      RowsFit shape kernels maxRows := by
  unfold splitGreedyToCapacity RowsFit whole
  simp only
  by_cases hwhole : (fromBounds shape kernels 0 (shape.outputHeight kernels)).inRows ≤ maxRows
  · rw [if_pos hwhole]
    exact ⟨fun _ => .inl hwhole, fun _ => ⟨_, rfl⟩⟩
  · rw [if_neg hwhole]
    constructor
    · rintro ⟨tiles, h⟩
      right
      obtain ⟨b, n, -, hn, hbn, hcap⟩ :=
        greedyFrom_last _ (shape.outputHeight_pos kernels) h
      exact span_le_of_last hk hstride hn hbn hwhole hcap
    · rintro (h | h)
      · exact absurd h hwhole
      · exact greedyFrom_isSome hk.height_pos h _ 0 (by omega)

end Tile

/-! ### Columns that fit -/

/-- What `plan_grid` asks of a column: no wider than the slab base allows, and a row capacity that
can be filled. -/
def ColumnFits (shape : Shape) (kernels : Kernels) (dataBanks : Nat) (c : ColumnTile) : Prop :=
  c.inCols ≤ shape.maxTileInputWidth ∧
    ∃ capacity, shape.maxTileInputRowsForWidthAndDataBanks c.inCols dataBanks = .ok capacity ∧
      RowsFit shape kernels (min capacity (shape.maxFeatureGrainInputRows kernels))

/-- The columns of the balanced partition into `n`. -/
def balancedColumns (shape : Shape) (kernels : Kernels) (n : Nat) : Planner (List ColumnTile) :=
  ColumnTile.split shape kernels (balancedColumnWidths (shape.outputWidth kernels) n)

/-- `cols` is the partition into the fewest balanced columns that all fit. -/
structure FewestColumns (shape : Shape) (kernels : Kernels) (dataBanks : Nat)
    (cols : List ColumnTile) : Prop where
  exists_count : ∃ n, 0 < n ∧ balancedColumns shape kernels n = .ok cols ∧
    (∀ c ∈ cols, ColumnFits shape kernels dataBanks c) ∧
    ∀ m, 0 < m → m < n → ∀ cols', balancedColumns shape kernels m = .ok cols' →
      ¬ ∀ c ∈ cols', ColumnFits shape kernels dataBanks c

theorem FewestColumns.unique {shape : Shape} {kernels : Kernels} {dataBanks : Nat}
    {cols cols' : List ColumnTile} (h : FewestColumns shape kernels dataBanks cols)
    (h' : FewestColumns shape kernels dataBanks cols') : cols = cols' := by
  obtain ⟨n, hn, hcols, hfit, hmin⟩ := h.exists_count
  obtain ⟨n', hn', hcols', hfit', hmin'⟩ := h'.exists_count
  rcases Nat.lt_trichotomy n n' with hlt | rfl | hlt
  · exact absurd hfit (hmin' n hn hlt cols hcols)
  · rw [hcols] at hcols'
    exact Except.ok.inj hcols'
  · exact absurd hfit' (hmin n' hn' hlt cols' hcols')

/-- A grid's columns all fit. -/
theorem planColumns_some {shape : Shape} {kernels : Kernels} {dataBanks : Nat}
    (hk : KernelFits shape kernels) (hstride : 0 < shape.stride) (cols : List ColumnTile) :
    ∀ {tiles : List Tile2D}, planColumns shape kernels dataBanks cols = .ok (some tiles) →
      ∀ c ∈ cols, ColumnFits shape kernels dataBanks c := by
  induction cols with
  | nil => simp
  | cons c cols ih =>
    intro tiles h
    rw [planColumns] at h
    split_ifs at h with hwide
    · cases h
    · simp only [bind_ok] at h
      obtain ⟨capacity, hcap, rows, hrows, h⟩ := h
      cases rows with
      | none => cases h
      | some rows =>
        simp only [bind_ok] at h
        obtain ⟨rest, hrest, h⟩ := h
        cases rest with
        | none => cases h
        | some rest =>
          intro c' hc'
          rcases List.mem_cons.mp hc' with rfl | hc'
          · refine ⟨by omega, capacity, hcap, ?_⟩
            rw [← Tile.splitGreedy_isSome_iff hk hstride]
            unfold rowTiles at hrows
            cases hg : Tile.splitGreedyToCapacity shape kernels
                (min capacity (shape.maxFeatureGrainInputRows kernels)) with
            | none => rw [hg] at hrows; cases hrows
            | some greedy => exact ⟨greedy, rfl⟩
          · exact ih hrest c' hc'

/-- On a surface layout realignment changes nothing, so the filler decides alone. -/
theorem rowTiles_surfaces {shape : Shape} {kernels : Kernels} (hsurf : shape.layout = .surfaces)
    (maxRows : Nat) :
    rowTiles shape kernels maxRows = pure (Tile.splitGreedyToCapacity shape kernels maxRows) := by
  unfold rowTiles
  cases Tile.splitGreedyToCapacity shape kernels maxRows with
  | none => rfl
  | some greedy => simp [realignDenseRowTiles, hsurf]

/-- On a surface layout a partition is only turned down for a column that does not fit. -/
theorem planColumns_none {shape : Shape} {kernels : Kernels} {dataBanks : Nat}
    (hk : KernelFits shape kernels) (hstride : 0 < shape.stride)
    (hsurf : shape.layout = .surfaces) (cols : List ColumnTile) :
    planColumns shape kernels dataBanks cols = .ok none →
      ¬ ∀ c ∈ cols, ColumnFits shape kernels dataBanks c := by
  induction cols with
  | nil => intro h; cases h
  | cons c cols ih =>
    intro h hall
    obtain ⟨hwidth, capacity, hcap, hfit⟩ := hall c List.mem_cons_self
    obtain ⟨rows, hrows⟩ := (Tile.splitGreedy_isSome_iff hk hstride _).mpr hfit
    rw [planColumns, if_neg (by omega), hcap] at h
    simp only [bind_ok, rowTiles_surfaces hsurf, hrows, pure_ok, Except.ok.injEq, exists_eq_left'] at h
    obtain ⟨rest, hrest, h⟩ := h
    cases rest with
    | none => exact ih hrest fun c' hc' => hall c' (List.mem_cons_of_mem _ hc')
    | some rest => cases h

/-! ### The plan's columns -/

theorem balancedColumnWidths_one (outputWidth : Nat) :
    balancedColumnWidths outputWidth 1 = [outputWidth] := by
  simp [balancedColumnWidths, Nat.mod_one]

/-- The search stops at the first count whose columns all fit. -/
theorem balancedSearch_columns {shape : Shape} {kernels : Kernels} {dataBanks weightBanks : Nat}
    (hk : KernelFits shape kernels) (hstride : 0 < shape.stride)
    (hsurf : shape.layout = .surfaces) (rest : Nat) : ∀ {count : Nat} {plan : ConvPlan}, 0 < count →
      (∀ m, 0 < m → m < count → ∀ cols, balancedColumns shape kernels m = .ok cols →
        ¬ ∀ c ∈ cols, ColumnFits shape kernels dataBanks c) →
      ConvPlan.balancedSearch shape kernels dataBanks weightBanks count rest = .ok plan →
      ∃ cols, FewestColumns shape kernels dataBanks cols ∧
        Grid shape kernels dataBanks cols plan.tiles := by
  induction rest with
  | zero => intro count plan _ _ h; cases h
  | succ rest ih =>
    intro count plan hcount hprev h
    rw [ConvPlan.balancedSearch] at h
    simp only [bind_ok] at h
    obtain ⟨result, hresult, h⟩ := h
    obtain ⟨cols, hcols, hplan⟩ := planGrid_ok hresult
    cases result with
    | some tiles =>
      obtain rfl := pure_ok.mp h
      exact ⟨cols, ⟨count, hcount, hcols, planColumns_some hk hstride cols hplan, hprev⟩,
        grid_of_planColumns hcols hplan⟩
    | none =>
      refine ih (Nat.succ_pos _) (fun m hm hlt cols' hcols' => ?_) h
      by_cases hend : m = count
      · subst hend
        have heq : cols' = cols := Except.ok.inj (hcols'.symm.trans hcols)
        rw [heq]
        exact planColumns_none hk hstride hsurf cols hplan
      · exact hprev m hm (by omega) cols' hcols'

/-- The captured partitions are of images 256 pixels wide, at stride one under `SAME` padding. -/
theorem captured_width {shape : Shape} {kernels : Kernels} {widths : List Nat}
    (h : capturedColumnPartition shape kernels = some widths) :
    shape.width = 256 ∧ shape.outputWidth kernels = 256 := by
  unfold capturedColumnPartition at h
  split_ifs at h with h1 h2 h3 h4
  all_goals
    obtain ⟨hw, -, hs, -, -, hp⟩ := h1
    refine ⟨hw, ?_⟩
  · simp [Shape.outputWidth, Shape.kernelProgramming, kernelProgramming, hw, hs, hp, h2.1]
  · simp [Shape.outputWidth, Shape.kernelProgramming, kernelProgramming, hw, hs, hp, h3.1]
  · simp [Shape.outputWidth, Shape.kernelProgramming, kernelProgramming, hw, hs, hp, h4.1]

/-- **The columns of a plan.** They are the fewest balanced columns that fit, unless the shape is one
of the captured ones. -/
theorem newWithCbufPartition_columns {shape : Shape} {kernels : Kernels}
    {dataBanks weightBanks : Nat} {plan : ConvPlan} (hk : KernelFits shape kernels)
    (hstride : 0 < shape.stride)
    (h : ConvPlan.newWithCbufPartition shape kernels dataBanks weightBanks = .ok plan) :
    (∃ cols, FewestColumns shape kernels dataBanks cols ∧
        Grid shape kernels dataBanks cols plan.tiles) ∨
      (shape.width = 256 ∧ shape.outputWidth kernels = 256) := by
  unfold ConvPlan.newWithCbufPartition at h
  simp only [bind_ok] at h
  obtain ⟨full, hfull, h⟩ := h
  rw [← balancedColumnWidths_one] at hfull
  obtain ⟨cols, hcols, hplan⟩ := planGrid_ok hfull
  cases full with
  | some tiles =>
    obtain rfl := pure_ok.mp h
    refine .inl ⟨cols, ⟨1, by decide, hcols, planColumns_some hk hstride cols hplan, ?_⟩,
      grid_of_planColumns hcols hplan⟩
    intro m hm hlt
    omega
  | none =>
    simp only [bind_ok, refuseUnless_ok, exists_const] at h
    obtain ⟨hsurf, h⟩ := h
    cases hcap : capturedColumnPartition shape kernels with
    | some widths => exact .inr (captured_width hcap)
    | none =>
      rw [hcap] at h
      refine .inl (balancedSearch_columns hk hstride hsurf _ (by decide) ?_ h)
      intro m hm hlt cols' hcols'
      obtain rfl : m = 1 := by omega
      have heq : cols' = cols := Except.ok.inj (hcols'.symm.trans hcols)
      rw [heq]
      exact planColumns_none hk hstride hsurf cols hplan

end IreeRocket.Conv
