import IreeRocket.Hal.Pooling

/-!
# Tiled pooling is whole pooling

What `PoolingPlan::new` returns. The tiles cut the output columns in order (`planTiles_covers`), and each is
the cut of the image line its windows reach, so its windows read what the whole image's windows read.
What the planner does not see to is that a tile reaches the image at all: one whose windows lie wholly in
the padding is planned with no input columns (`tiled_pooling_iff`).
-/

namespace IreeRocket.Pooling

open Segments Windows

/-! ### Valid shapes -/

/-- What a validated shape satisfies. -/
structure PoolingShape.Valid (s : PoolingShape) : Prop where
  inputWidth : 1 ≤ s.inputWidth ∧ s.inputWidth ≤ 8192
  inputHeight : 1 ≤ s.inputHeight ∧ s.inputHeight ≤ 8192
  inputChannels : 1 ≤ s.inputChannels ∧ s.inputChannels ≤ 8192
  outputWidth : 1 ≤ s.outputWidth ∧ s.outputWidth ≤ 8192
  outputHeight : 1 ≤ s.outputHeight ∧ s.outputHeight ≤ 8192
  kernelWidth : 1 ≤ s.kernelWidth ∧ s.kernelWidth ≤ 8
  kernelHeight : 1 ≤ s.kernelHeight ∧ s.kernelHeight ≤ 8
  strideX : 1 ≤ s.strideX ∧ s.strideX ≤ 16
  strideY : 1 ≤ s.strideY ∧ s.strideY ≤ 16
  paddings : s.padLeft ≤ 7 ∧ s.padTop ≤ 7 ∧ s.padRight ≤ 7 ∧ s.padBottom ≤ 7
  channels : s.inputChannels = s.outputChannels
  kernelWidth_le : s.kernelWidth ≤ s.inputWidth + s.padLeft + s.padRight
  kernelHeight_le : s.kernelHeight ≤ s.inputHeight + s.padTop + s.padBottom
  outputWidth_eq : s.outputWidth =
    (s.inputWidth + s.padLeft + s.padRight - s.kernelWidth) / s.strideX + 1
  outputHeight_eq : s.outputHeight =
    (s.inputHeight + s.padTop + s.padBottom - s.kernelHeight) / s.strideY + 1

variable {s : PoolingShape}

theorem checkExtents_ok {l : List (String × Nat)} {u : Unit} :
    checkExtents l = .ok u ↔ ∀ entry ∈ l, 1 ≤ entry.2 ∧ entry.2 ≤ maxPpuExtent := by
  induction l with
  | nil => simp [checkExtents, pure_ok]
  | cons entry l ih =>
    simp only [checkExtents, bind_ok, assertThat_ok, exists_const, ih, List.forall_mem_cons]

theorem checkKernelsAndStrides_ok {l : List (String × Nat)} {u : Unit} :
    checkKernelsAndStrides l = .ok u ↔
      ∀ entry ∈ l, 1 ≤ entry.2 ∧ entry.2 ≤ maxPpuKernelOrStride := by
  induction l with
  | nil => simp [checkKernelsAndStrides, pure_ok]
  | cons entry l ih =>
    simp only [checkKernelsAndStrides, bind_ok, assertThat_ok, exists_const, ih, List.forall_mem_cons]

theorem checkPaddings_ok {l : List (String × Nat)} {u : Unit} :
    checkPaddings l = .ok u ↔ ∀ entry ∈ l, entry.2 ≤ maxPpuPadding := by
  induction l with
  | nil => simp [checkPaddings, pure_ok]
  | cons entry l ih =>
    simp only [checkPaddings, bind_ok, assertThat_ok, exists_const, ih, List.forall_mem_cons]

theorem outputExtent_ok {input kernel stride before after output : Nat}
    (hsmall : input + before + after < 2 ^ 32) :
    outputExtent input kernel stride before after = .ok output ↔
      kernel ≤ input + before + after ∧ (input + before + after - kernel) / stride + 1 = output := by
  unfold outputExtent
  simp only [bind_ok, assertThat_ok, pure_ok, exists_const]
  exact and_iff_right hsmall

theorem validate_ok {u : Unit} : s.validate = .ok u ↔ s.Valid := by
  unfold PoolingShape.validate validatePoolingGeometry validateDirectKernel
  simp only [bind_ok, assertThat_ok, checkExtents_ok, checkKernelsAndStrides_ok, checkPaddings_ok,
    exists_const, List.forall_mem_cons, List.not_mem_nil, IsEmpty.forall_iff, implies_true, and_true]
  have hextent : maxPpuExtent = 8192 := rfl
  have hstep : maxPpuKernelOrStride = 16 := rfl
  have hpad : maxPpuPadding = 7 := rfl
  have hdirect : maxDirectKernel = 8 := rfl
  constructor
  · rintro ⟨⟨hextents, hkernels, hpads, hchannels, width, hwidth, hwidth_eq, height, hheight, hheight_eq⟩,
      haxes⟩
    obtain ⟨hle, hout⟩ := (outputExtent_ok (by omega)).mp hwidth
    obtain ⟨hle', hout'⟩ := (outputExtent_ok (by omega)).mp hheight
    constructor <;> omega
  · intro h
    obtain ⟨h1, h2, h3, h4, h5, h6, h7, h8, h9, h10, h11, h12, h13, h14, h15⟩ := h
    refine ⟨⟨by omega, by omega, by omega, h11, _, (outputExtent_ok (by omega)).mpr ⟨h12, rfl⟩, h14, _,
      (outputExtent_ok (by omega)).mpr ⟨h13, rfl⟩, h15⟩, by omega⟩

/-! ### The cut of the output columns -/

namespace PoolingShape

theorem limits_pos (s : PoolingShape) : 0 < (directWidthLimits s).2 := by
  unfold directWidthLimits overlappingWindowWidthLimits
  split_ifs
  · cases s.precision <;> decide
  all_goals decide

theorem Valid.tileCount_pos (h : s.Valid) : 0 < s.tileCount :=
  ceilDiv_pos h.outputWidth.1 s.limits_pos

/-- The first output column of the tile at an index. -/
def cutFirst (s : PoolingShape) (index : Nat) : Nat :=
  if s.AvoidsEqualTiles then index * (62 + index)
  else index * (s.outputWidth / s.tileCount) +
    (index - (s.tileCount - s.outputWidth % s.tileCount))

theorem cutFirst_zero (s : PoolingShape) : s.cutFirst 0 = 0 := by
  unfold cutFirst
  split_ifs <;> omega

theorem cutFirst_succ (s : PoolingShape) (index : Nat) :
    s.cutFirst (index + 1) = s.cutFirst index + s.tileOutputWidth index := by
  unfold cutFirst tileOutputWidth
  by_cases havoid : s.AvoidsEqualTiles
  · obtain ⟨-, -, -, -, hbase⟩ := id havoid
    rw [if_pos havoid, if_pos havoid, if_pos havoid, hbase]
    ring
  · rw [if_neg havoid, if_neg havoid, if_neg havoid, Nat.succ_mul]
    split_ifs <;> omega

theorem cutFirst_count (h : s.Valid) : s.cutFirst s.tileCount = s.outputWidth := by
  have hpos := h.tileCount_pos
  have hmod := Nat.mod_lt s.outputWidth hpos
  have hdiv := Nat.div_add_mod s.outputWidth s.tileCount
  unfold cutFirst
  split_ifs with havoid
  · obtain ⟨-, -, hcount, hrem, hbase⟩ := havoid
    rw [hrem, hbase, hcount] at hdiv
    rw [hcount]
    omega
  · omega

/-- A tile has an output column. -/
theorem tileOutputWidth_pos (h : s.Valid) (index : Nat) : 0 < s.tileOutputWidth index := by
  have hcount : s.tileCount ≤ s.outputWidth := by
    unfold tileCount
    rw [ceilDiv_le_iff_le_mul s.limits_pos]
    exact Nat.le_mul_of_pos_left _ s.limits_pos
  have hbase : 0 < s.outputWidth / s.tileCount := Nat.div_pos hcount h.tileCount_pos
  unfold tileOutputWidth
  dsimp only
  split_ifs with havoid
  · obtain ⟨-, -, -, -, hwhole⟩ := havoid
    omega
  all_goals omega

theorem cutFirst_mono (s : PoolingShape) {i j : Nat} (h : i ≤ j) : s.cutFirst i ≤ s.cutFirst j := by
  induction j, h using Nat.le_induction with
  | base => exact le_rfl
  | succ j _ ih =>
    rw [cutFirst_succ]
    omega

/-! ### One tile -/

/-- The image line the windows slide over. -/
def axis (s : PoolingShape) : Axis := ⟨s.inputWidth, s.kernelWidth, s.strideX, s.padLeft⟩

end PoolingShape

/-- A tile of the image line. -/
def PoolingTile.cut (t : PoolingTile) : Tile :=
  ⟨t.inputFirst, t.inputWidth, t.outputFirst, t.outputWidth, t.padLeft, t.padRight⟩

/-- A planned tile is the cut of its output columns. -/
theorem tileAt_ok {outputFirst outputWidth : Nat} {tile : PoolingTile}
    (h : s.tileAt outputFirst outputWidth = .ok tile) :
    Cut s.axis tile.cut ∧ tile.outputFirst = outputFirst ∧ tile.outputWidth = outputWidth := by
  unfold PoolingShape.tileAt at h
  simp only [bind_ok, assertThat_ok, pure_ok, exists_const] at h
  obtain ⟨hle, rfl⟩ := h
  refine ⟨?_, rfl, rfl⟩
  unfold PoolingTile.cut PoolingShape.axis
  constructor <;> simp only [Axis.spanFirst, Axis.spanEnd] <;> omega

/-- A tile is planned unless its windows begin past the image. -/
theorem tileAt_isOk {outputFirst outputWidth : Nat} :
    (∃ tile, s.tileAt outputFirst outputWidth = .ok tile) ↔
      max (s.axis.spanFirst outputFirst) 0 ≤
        max (min (s.axis.spanEnd (outputFirst + outputWidth)) s.inputWidth) 0 := by
  unfold PoolingShape.tileAt PoolingShape.axis Axis.spanFirst Axis.spanEnd
  simp only [bind_ok, assertThat_ok, pure_ok, exists_const]
  constructor
  · rintro ⟨tile, hle, -⟩
    omega
  · intro hle
    exact ⟨_, by omega, rfl⟩

/-! ### The plan -/

/-- The loop accepts `t` as the tile at an index. -/
structure IsTile (s : PoolingShape) (index : Nat) (t : PoolingTile) : Prop where
  tileAt : s.tileAt (s.cutFirst index) (s.tileOutputWidth index) = .ok t
  limits : t.inputWidth ≤ (directWidthLimits s).1 ∧ t.outputWidth ≤ (directWidthLimits s).2

/-- The loop plans one tile for each index. -/
theorem planTiles_ok {remaining index : Nat} {tiles : List PoolingTile} :
    s.planTiles remaining index (s.cutFirst index) = .ok tiles ↔
      List.Forall₂ (IsTile s) (List.range' index remaining) tiles := by
  induction remaining generalizing index tiles with
  | zero =>
    rw [List.range'_zero, List.forall₂_nil_left_iff]
    exact pure_ok.trans eq_comm
  | succ remaining ih =>
    rw [List.range'_succ]
    simp only [PoolingShape.planTiles, bind_ok, assertThat_ok, pure_ok, exists_const]
    rw [← s.cutFirst_succ]
    constructor
    · rintro ⟨t, ht, hlimits, rest, hrest, rfl⟩
      exact .cons ⟨ht, hlimits⟩ (ih.mp hrest)
    · intro h
      cases h with
      | cons ht hrest => exact ⟨_, ht.tileAt, ht.limits, _, ih.mpr hrest, rfl⟩

theorem planTiles_covers (hs : s.Valid) {remaining index : Nat} {tiles : List PoolingTile}
    (h : List.Forall₂ (IsTile s) (List.range' index remaining) tiles) :
    Covers PoolingTile.outputFirst PoolingTile.outputWidth (s.cutFirst index) tiles
      (s.cutFirst (index + remaining)) := by
  induction remaining generalizing index tiles with
  | zero =>
    cases h
    exact .nil _
  | succ remaining ih =>
    rw [List.range'_succ] at h
    cases h with
    | cons ht hrest =>
      obtain ⟨-, hfirst, hwidth⟩ := tileAt_ok ht.tileAt
      refine .cons' hfirst (hwidth ▸ PoolingShape.tileOutputWidth_pos hs index) ?_
      rw [hwidth, ← s.cutFirst_succ, show index + (remaining + 1) = index + 1 + remaining by omega]
      exact ih hrest

/-- What `PoolingPlan::new` returns. -/
theorem new_ok {plan : PoolingPlan} : PoolingPlan.new s = .ok plan ↔
    s.Valid ∧ plan.shape = s ∧ List.Forall₂ (IsTile s) (List.range s.tileCount) plan.tiles := by
  unfold PoolingPlan.new
  simp only [bind_ok, validate_ok, exists_const, pure_ok]
  rw [List.range_eq_range']
  constructor
  · rintro ⟨hs, tiles, htiles, rfl⟩
    exact ⟨hs, rfl, planTiles_ok.mp (by rw [PoolingShape.cutFirst_zero]; exact htiles)⟩
  · rintro ⟨hs, rfl, htiles⟩
    have hplanned := planTiles_ok.mpr htiles
    rw [PoolingShape.cutFirst_zero] at hplanned
    exact ⟨hs, plan.tiles, hplanned, rfl⟩

/-- Every planned tile is the tile at an index. -/
theorem exists_index {indices : List Nat} {tiles : List PoolingTile}
    (h : List.Forall₂ (IsTile s) indices tiles) {t : PoolingTile} (ht : t ∈ tiles) :
    ∃ i ∈ indices, IsTile s i t := mem_of_forall₂ h.flip ht

/-! ### What the planner takes for granted -/

/-- The first tile's windows reach past the leading padding, and the last tile's begin before the image
ends. The tiles are balanced: the first has `output / tiles` columns, the last as many rounded up. -/
def EdgesTouch (s : PoolingShape) : Prop :=
  s.padLeft < (s.outputWidth / s.tileCount - 1) * s.strideX + s.kernelWidth ∧
    (s.outputWidth - s.outputWidth ⌈/⌉ s.tileCount) * s.strideX < s.inputWidth + s.padLeft

instance (s : PoolingShape) : Decidable (EdgesTouch s) := inferInstanceAs (Decidable (_ ∧ _))

/-- The windows of the tile at an index reach the image. -/
def Touches (s : PoolingShape) (index : Nat) : Prop :=
  s.axis.spanFirst (s.cutFirst index) < s.inputWidth ∧
    0 < s.axis.spanEnd (s.cutFirst (index + 1))

/-- The windows of a tile end after they begin. -/
theorem spanFirst_lt_spanEnd (hs : s.Valid) (index : Nat) :
    s.axis.spanFirst (s.cutFirst index) < s.axis.spanEnd (s.cutFirst (index + 1)) := by
  have hlast : s.cutFirst index ≤ s.cutFirst (index + 1) - 1 := by
    have htile := PoolingShape.tileOutputWidth_pos hs index
    rw [s.cutFirst_succ]
    omega
  have hmul := Nat.mul_le_mul_right s.strideX hlast
  have hkernel := hs.kernelWidth.1
  unfold Axis.spanFirst Axis.spanEnd PoolingShape.axis
  dsimp only
  omega

/-- A tile at an index is given a column exactly when its windows reach the image. -/
theorem IsTile.inputWidth_pos_iff (hs : s.Valid) {index : Nat} {t : PoolingTile} (h : IsTile s index t) :
    0 < t.inputWidth ↔ Touches s index := by
  obtain ⟨hcut, hfirst, hwidth⟩ := tileAt_ok h.tileAt
  have hspan : t.outputFirst + t.outputWidth = s.cutFirst (index + 1) := by
    rw [hfirst, hwidth, ← s.cutFirst_succ]
  have hpos := hcut.inCount_pos_iff
  change 0 < t.inputWidth ↔ max (s.axis.spanFirst t.outputFirst) 0 <
    min (s.axis.spanEnd (t.outputFirst + t.outputWidth)) s.inputWidth at hpos
  rw [hpos, hspan, hfirst]
  have hwindow := spanFirst_lt_spanEnd hs index
  have himage := hs.inputWidth.1
  unfold Touches
  omega

/-- A window that begins no later begins no later in the image. -/
theorem spanFirst_mono (s : PoolingShape) {i j : Nat} (h : i ≤ j) :
    s.axis.spanFirst (s.cutFirst i) ≤ s.axis.spanFirst (s.cutFirst j) := by
  have hmul := Nat.mul_le_mul_right s.strideX (s.cutFirst_mono h)
  unfold Axis.spanFirst PoolingShape.axis
  dsimp only
  omega

theorem spanEnd_mono (s : PoolingShape) {i j : Nat} (h : i ≤ j) :
    s.axis.spanEnd (s.cutFirst i) ≤ s.axis.spanEnd (s.cutFirst j) := by
  have hmul := Nat.mul_le_mul_right s.strideX (Nat.sub_le_sub_right (s.cutFirst_mono h) 1)
  unfold Axis.spanEnd PoolingShape.axis
  dsimp only
  omega

/-- It is enough that the first and the last tile reach the image. -/
theorem touches_iff_edges (hs : s.Valid) :
    (∀ i < s.tileCount, Touches s i) ↔
      0 < s.axis.spanEnd (s.cutFirst 1) ∧
        s.axis.spanFirst (s.cutFirst (s.tileCount - 1)) < s.inputWidth := by
  have hpos := hs.tileCount_pos
  constructor
  · intro h
    exact ⟨(h 0 hpos).2, (h _ (by omega)).1⟩
  · rintro ⟨hfirst, hlast⟩ i hi
    have hle := spanFirst_mono s (show i ≤ s.tileCount - 1 by omega)
    have hle' := spanEnd_mono s (show 1 ≤ i + 1 by omega)
    exact ⟨by omega, by omega⟩

/-- Unpadded windows that fit the image all reach it. -/
theorem AvoidsEqualTiles.edges (hs : s.Valid) (h : s.AvoidsEqualTiles) :
    0 < s.axis.spanEnd (s.cutFirst 1) ∧
      s.axis.spanFirst (s.cutFirst (s.tileCount - 1)) < s.inputWidth ∧ EdgesTouch s := by
  obtain ⟨-, ⟨hk, -, hstride, -, hleft, -, hright, -⟩, hcount, hrem, hbase⟩ := id h
  have hout := hs.outputWidth_eq
  have hdiv := Nat.div_add_mod s.outputWidth s.tileCount
  have hceil : s.outputWidth ⌈/⌉ s.tileCount = 64 := by
    rw [Nat.ceilDiv_eq_add_pred_div, hcount]
    rw [hcount] at hdiv hrem hbase
    omega
  rw [hcount] at hdiv hrem hbase
  rw [hk, hstride, hleft, hright] at hout
  unfold EdgesTouch PoolingShape.cutFirst Axis.spanFirst Axis.spanEnd PoolingShape.axis
  rw [if_pos h, if_pos h, hceil, hcount, hk, hstride, hleft]
  dsimp only
  omega

/-- **Every tile reaches the image exactly when the first and the last do**, in the shape's own terms. -/
theorem touches_iff (hs : s.Valid) : (∀ i < s.tileCount, Touches s i) ↔ EdgesTouch s := by
  rw [touches_iff_edges hs]
  by_cases havoid : s.AvoidsEqualTiles
  · obtain ⟨hfirst, hlast, hedges⟩ := AvoidsEqualTiles.edges hs havoid
    exact iff_of_true ⟨hfirst, hlast⟩ hedges
  · have hpos := hs.tileCount_pos
    have hmod := Nat.mod_lt s.outputWidth hpos
    have hfirst : s.cutFirst 1 = s.outputWidth / s.tileCount := by
      unfold PoolingShape.cutFirst
      rw [if_neg havoid, one_mul]
      omega
    have hlast : s.cutFirst (s.tileCount - 1) = s.outputWidth - s.outputWidth ⌈/⌉ s.tileCount := by
      have hstep := s.cutFirst_succ (s.tileCount - 1)
      have hwidth : s.tileOutputWidth (s.tileCount - 1) = s.outputWidth ⌈/⌉ s.tileCount := by
        unfold PoolingShape.tileOutputWidth
        rw [if_neg havoid, ceilDiv_eq _ hpos]
        congr 1
        split_ifs <;> omega
      rw [Nat.sub_add_cancel hpos, PoolingShape.cutFirst_count hs, hwidth] at hstep
      omega
    rw [hfirst, hlast]
    unfold EdgesTouch Axis.spanFirst Axis.spanEnd PoolingShape.axis
    dsimp only
    omega

/-! ### Tiled pooling -/

/-- The image column the windows' rows slide over. -/
def PoolingShape.rows (s : PoolingShape) : Axis := ⟨s.inputHeight, s.kernelHeight, s.strideY, s.padTop⟩

section Window

variable {α : Type}

/-- What the window at an output pixel reads of the image, row by row. -/
def PoolingShape.window (s : PoolingShape) (image : Nat → Nat → α) (fill : α) (row column : Nat) :
    List (List α) :=
  s.rows.window (fun r => s.axis.window (image r) fill column) (.replicate s.kernelWidth fill) row

/-- What the same window reads of the tile's columns. -/
def PoolingTile.window (t : PoolingTile) (s : PoolingShape) (image : Nat → Nat → α) (fill : α)
    (row column : Nat) : List (List α) :=
  s.rows.window (fun r => t.cut.window s.axis (fun x => image r (t.inputFirst + x)) fill column)
    (.replicate s.kernelWidth fill) row

end Window

/-- A plan whose tiles pool as the whole image does. -/
structure PlanExact (s : PoolingShape) (plan : PoolingPlan) : Prop where
  covers : Covers PoolingTile.outputFirst PoolingTile.outputWidth 0 plan.tiles s.outputWidth
  limits : ∀ t ∈ plan.tiles,
    t.inputWidth ≤ (directWidthLimits s).1 ∧ t.outputWidth ≤ (directWidthLimits s).2
  taps : ∀ t ∈ plan.tiles, ∀ o tap, t.outputFirst ≤ o → o < t.outputFirst + t.outputWidth →
    tap < s.kernelWidth →
      (s.axis.Inside (s.axis.tap o tap) ↔ t.cut.Inside (t.cut.tap s.axis o tap)) ∧
        (s.axis.Inside (s.axis.tap o tap) → s.axis.tap o tap = t.inputFirst + t.cut.tap s.axis o tap)
  nonempty : ∀ t ∈ plan.tiles, 0 < t.inputWidth
  inside : ∀ t ∈ plan.tiles, t.inputFirst + t.inputWidth ≤ s.inputWidth
  padding : ∀ t ∈ plan.tiles,
    (t.padLeft : Int) = max (-s.axis.spanFirst t.outputFirst) 0 ∧
      (t.padRight : Int) = max (s.axis.spanEnd (t.outputFirst + t.outputWidth) - s.inputWidth) 0
  pooled : ∀ t ∈ plan.tiles, ∀ o row, t.outputFirst ≤ o → o < t.outputFirst + t.outputWidth →
    ∀ (α β : Type) (image : Nat → Nat → α) (fill : α) (pool : List (List α) → β),
      pool (t.window s image fill row o) = pool (s.window image fill row o)

/-- A tile's windows read what the image's do. -/
theorem IsTile.window_eq {α : Type} {index : Nat} {t : PoolingTile} (h : IsTile s index t)
    {o : Nat} (ho : t.outputFirst ≤ o) (ho' : o < t.outputFirst + t.outputWidth)
    (image : Nat → Nat → α) (fill : α) (row : Nat) :
    t.window s image fill row o = s.window image fill row o := by
  obtain ⟨hcut, -, -⟩ := tileAt_ok h.tileAt
  unfold PoolingTile.window PoolingShape.window
  congr 1
  funext r
  exact hcut.window_eq ho ho' (image r) fill

/-- **A plan pools as the whole image does exactly when its edge tiles reach the image.** Whatever the
geometry, the tiles cut the output columns, keep the width limits and read through their windows what
the whole image's windows read; only an edge tile that lies wholly in the padding is empty. -/
theorem tiled_pooling_iff {plan : PoolingPlan} (h : PoolingPlan.new s = .ok plan) :
    PlanExact s plan ↔ EdgesTouch s := by
  obtain ⟨hs, -, htiles⟩ := new_ok.mp h
  rw [← touches_iff hs]
  constructor
  · intro hexact i hi
    obtain ⟨t, ht, htile⟩ := mem_of_forall₂ htiles (List.mem_range.mpr hi)
    exact (htile.inputWidth_pos_iff hs).mp (hexact.nonempty t ht)
  · intro htouches
    have hcut : ∀ t ∈ plan.tiles, ∃ i < s.tileCount, IsTile s i t := by
      intro t ht
      obtain ⟨i, hi, htile⟩ := exists_index htiles ht
      exact ⟨i, List.mem_range.mp hi, htile⟩
    constructor
    case covers =>
      rw [List.range_eq_range'] at htiles
      have hcovers := planTiles_covers hs htiles
      rwa [PoolingShape.cutFirst_zero, Nat.zero_add, PoolingShape.cutFirst_count hs] at hcovers
    case nonempty =>
      intro t ht
      obtain ⟨i, hi, htile⟩ := hcut t ht
      exact (htile.inputWidth_pos_iff hs).mpr (htouches i hi)
    all_goals
      intro t ht
      obtain ⟨i, -, htile⟩ := hcut t ht
      obtain ⟨htap, -, -⟩ := tileAt_ok htile.tileAt
    case limits => exact htile.limits
    case taps =>
      intro o tap ho ho' hk
      exact ⟨htap.inside_iff ho ho' hk, fun _ => htap.tap_eq ho⟩
    case inside => exact htap.inEnd_le
    case padding => exact ⟨htap.padBefore, htap.padAfter⟩
    case pooled =>
      intro o row ho ho' α β image fill pool
      rw [htile.window_eq ho ho']

/-- An overlapping window, three columns wide at stride two, over 256 columns: two tiles, which share
the column between them. -/
theorem tiled_pooling_overlapping :
    let s : PoolingShape := {
      inputWidth := 256, inputHeight := 8, inputChannels := 8, outputWidth := 127, outputHeight := 7
      outputChannels := 8, precision := .fp16, kernelWidth := 3, kernelHeight := 2, strideX := 2
      strideY := 1, method := .max, padLeft := 0, padTop := 0, padRight := 0, padBottom := 0, padValue := 0 }
    let plan : PoolingPlan := ⟨s, [⟨0, 127, 0, 63, 0, 0⟩, ⟨126, 129, 63, 64, 0, 0⟩]⟩
    PoolingPlan.new s = .ok plan ∧ (PlanExact s plan ↔ EdgesTouch s) ∧ EdgesTouch s := by
  intro s plan
  have hplan : PoolingPlan.new s = .ok plan := by decide +kernel
  exact ⟨hplan, tiled_pooling_iff hplan, by decide +kernel⟩

/-- One column with seven of leading padding: the window of the one tile ends in the padding, and the
tile has no input column. -/
theorem tile_in_padding :
    let s : PoolingShape := {
      inputWidth := 1, inputHeight := 1, inputChannels := 8, outputWidth := 1, outputHeight := 1
      outputChannels := 8, precision := .fp16, kernelWidth := 2, kernelHeight := 1, strideX := 16
      strideY := 1, method := .max, padLeft := 7, padTop := 0, padRight := 0, padBottom := 0, padValue := 0 }
    ∃ plan, PoolingPlan.new s = .ok plan ∧ ¬ PlanExact s plan := by
  intro s
  refine ⟨⟨s, [⟨0, 0, 0, 1, 7, 0⟩]⟩, by decide +kernel, fun h => ?_⟩
  exact absurd (h.nonempty ⟨0, 0, 0, 1, 7, 0⟩ List.mem_cons_self) (by decide)

end IreeRocket.Pooling
