import IreeRocket.Core.PlanTotal

/-!
# Cutting a dense image at aligned rows

A dense image is one column, and where it does not fit the capacity whole, every row tile but the first
must begin a whole number of feature atoms into it. How often an output row does is a matter of the
stride, the padding and the bytes of a row: one in `period` (`AlignsEvery`), or none. Where one does, a
uniform split whose tiles leave room for its boundaries to move by half a period is realigned
(`rowTiles_of_alignedRowsFit`); where no inner row does, only the whole image is a tile
(`rowTiles_reach`).
-/

namespace IreeRocket.Conv

open Segments

section Rows

variable {shape : Shape} {kernels : Kernels}

/-- The input rows that `n` output rows charge at the full kernel span. -/
def rowSpan (shape : Shape) (kernels : Kernels) (n : Nat) : Nat :=
  max ((n - 1) * shape.stride + kernels.1) (n * shape.stride)

/-- One output row in `period` begins at an input row whose byte offset is a whole number of feature
atoms. -/
structure AlignsEvery (shape : Shape) (kernels : Kernels) (period : Nat) : Prop where
  pos : 0 < period
  row : ∃ row, (shape.kernelProgramming kernels).padTop ≤ row * shape.stride ∧ featureAtomBytes ∣
    (row * shape.stride - (shape.kernelProgramming kernels).padTop) * shape.inputRowStride
  step : featureAtomBytes ∣ period * shape.stride * shape.inputRowStride

/-- Some uniform split leaves each boundary half a period of room on either side, and holds its tiles
when they grow by as much at either end. -/
def AlignedRowsFit (shape : Shape) (kernels : Kernels) (maxRows : Nat) : Prop :=
  ∃ period count, AlignsEvery shape kernels period ∧
    (0 < count ∧ count ≤ shape.outputHeight kernels) ∧
    2 * (period / 2) + 1 ≤ shape.outputHeight kernels / count ∧
    rowSpan shape kernels (shape.outputHeight kernels ⌈/⌉ count + 2 * (period / 2)) ≤ maxRows

/-! ### Spans -/

theorem rowSpan_mono {n m : Nat} (h : n ≤ m) : rowSpan shape kernels n ≤ rowSpan shape kernels m :=
  max_le_max (Nat.add_le_add_right (Nat.mul_le_mul_right _ (Nat.sub_le_sub_right h 1)) _)
    (Nat.mul_le_mul_right _ h)

theorem capacityRows_le_rowSpan (a : Nat) {n : Nat} (hn : 0 < n) (hk : 0 < kernels.1) :
    Tile.capacityRows shape kernels a n ≤ rowSpan shape kernels n := by
  have hlast : (a + n - 1) * shape.stride = a * shape.stride + (n - 1) * shape.stride := by
    rw [← Nat.add_mul, Nat.add_sub_assoc hn]
  unfold Tile.capacityRows rowSpan Shape.tileInFirst
  simp only [kernelProgramming_height, hlast]
  omega

theorem inRows_le_rowSpan (a : Nat) {n : Nat} (hn : 0 < n) (hk : 0 < kernels.1) :
    (Tile.fromBounds shape kernels a n).inRows ≤ rowSpan shape kernels n :=
  (Tile.inRows_le_capacityRows shape kernels a n).trans (capacityRows_le_rowSpan a hn hk)

/-! ### Aligned rows -/

/-- A row of the same residue as an aligned one is aligned. -/
theorem AlignsEvery.safe {period row : Nat} (hdense : shape.layout = .dense)
    (h : AlignsEvery shape kernels period)
    (haligned : (shape.kernelProgramming kernels).padTop ≤ row * shape.stride ∧ featureAtomBytes ∣
      (row * shape.stride - (shape.kernelProgramming kernels).padTop) * shape.inputRowStride)
    {other : Nat} (hother : (∃ i, other = row + i * period) ∨ ∃ i, row = other + i * period) :
    shape.denseFeatureOffsetSafe (shape.tileInFirst kernels other) := by
  unfold Shape.denseFeatureOffsetSafe Shape.tileInFirst
  rw [hdense]
  refine beq_iff_eq.mpr (Nat.mod_eq_zero_of_dvd ?_)
  generalize (shape.kernelProgramming kernels).padTop = padTop at *
  obtain ⟨hpad, hrow⟩ := haligned
  have hperiods (i : Nat) : featureAtomBytes ∣ i * period * shape.stride * shape.inputRowStride := by
    rw [Nat.mul_assoc i, Nat.mul_assoc i]
    exact h.step.mul_left i
  rcases hother with ⟨i, rfl⟩ | ⟨i, rfl⟩
  · have hsplit : (row + i * period) * shape.stride - padTop =
        row * shape.stride - padTop + i * period * shape.stride := by
      rw [Nat.add_mul]
      omega
    rw [hsplit, Nat.add_mul]
    exact Nat.dvd_add hrow (hperiods i)
  · by_cases hclipped : other * shape.stride ≤ padTop
    · rw [Nat.sub_eq_zero_of_le hclipped, Nat.zero_mul]
      exact Nat.dvd_zero _
    · have hsplit : (other + i * period) * shape.stride - padTop =
          other * shape.stride - padTop + i * period * shape.stride := by
        rw [Nat.add_mul]
        omega
      rw [hsplit, Nat.add_mul] at hrow
      exact (Nat.dvd_add_left (hperiods i)).mp hrow

/-- Every window of a period has an aligned row. -/
theorem AlignsEvery.window {period : Nat} (hdense : shape.layout = .dense)
    (h : AlignsEvery shape kernels period) (first : Nat) :
    ∃ row, first ≤ row ∧ row < first + period ∧
      shape.denseFeatureOffsetSafe (shape.tileInFirst kernels row) := by
  obtain ⟨row, haligned⟩ := h.row
  rcases Nat.le_total first row with hle | hle
  · refine ⟨first + (row - first) % period, Nat.le_add_right _ _,
      Nat.add_lt_add_left (Nat.mod_lt _ h.pos) _, h.safe hdense haligned (.inr ⟨(row - first) / period, ?_⟩)⟩
    have := Nat.mod_add_div (row - first) period
    rw [Nat.mul_comm] at this
    omega
  · refine ⟨row + (first - row) ⌈/⌉ period * period, ?_, ?_, h.safe hdense haligned (.inl ⟨_, rfl⟩)⟩
    · have := le_ceilDiv_mul (first - row) h.pos
      omega
    · have := nextMultipleOf_lt (first - row) h.pos
      unfold nextMultipleOf at this
      omega

/-! ### Realigning boundaries that have room -/

/-- The nearest aligned boundary is at most as far as any other in the range. -/
theorem nearestSafeBoundary_near {lower current upper room row : Nat} (hlower : lower + room ≤ current)
    (hupper : current + room ≤ upper) (hrow : current - room ≤ row ∧ row ≤ current + room)
    (hne : row ≠ current) (hsafe : shape.denseFeatureOffsetSafe (shape.tileInFirst kernels row)) :
    ∃ b, nearestSafeBoundary shape kernels lower current upper = some b ∧
      current - room ≤ b ∧ b ≤ current + room := by
  unfold nearestSafeBoundary
  dsimp only
  generalize hsearch : (fun distance => List.find? (fun candidate =>
    decide (lower ≤ candidate ∧ candidate ≤ upper ∧
      shape.denseFeatureOffsetSafe (shape.tileInFirst kernels candidate) = true))
    (if distance ≤ current then [current - distance, current + distance]
      else [current + distance])) = search
  -- the given row is found at its own distance, if nothing nearer is
  obtain ⟨distance, hpos, hroom, hfound⟩ :
      ∃ distance, 0 < distance ∧ distance ≤ room ∧ search distance ≠ none := by
    refine ⟨max (row - current) (current - row), by omega, by omega, ?_⟩
    rw [← hsearch]
    refine fun hnone => List.find?_eq_none.mp hnone row ?_ (decide_eq_true ⟨by omega, by omega, hsafe⟩)
    rw [if_pos (by omega), List.mem_cons, List.mem_singleton]
    omega
  have hmem : distance ∈ List.range' 1 (max (current - lower) (upper - current)) := by
    rw [List.mem_range'_1]
    omega
  cases hresult : (List.range' 1 (max (current - lower) (upper - current))).findSome? search with
  | none => exact absurd (List.findSome?_eq_none_iff.mp hresult distance hmem) hfound
  | some b =>
    obtain ⟨before, nearest, behind, hsplit, hb, hbefore⟩ := List.findSome?_eq_some_iff.mp hresult
    have hnearest : nearest ≤ distance := by
      rw [hsplit] at hmem
      rcases List.mem_append.mp hmem with hmem | hmem
      · exact absurd (hbefore distance hmem) hfound
      · rcases List.mem_cons.mp hmem with rfl | hmem
        · exact le_rfl
        · have hsorted := List.pairwise_lt_range' (s := 1)
            (n := max (current - lower) (upper - current))
          rw [hsplit, List.pairwise_append, List.pairwise_cons] at hsorted
          exact (hsorted.2.1.1 distance hmem).le
    rw [← hsearch] at hb
    have hb := List.mem_of_find?_eq_some hb
    refine ⟨b, rfl, ?_⟩
    split_ifs at hb
    · rw [List.mem_cons, List.mem_singleton] at hb
      omega
    · rw [List.mem_singleton] at hb
      omega

/-- A boundary with half a period of room on either side moves by no more. -/
theorem placeBoundary_near {period lower current upper : Nat} (hdense : shape.layout = .dense)
    (h : AlignsEvery shape kernels period) (hlower : lower + period / 2 ≤ current)
    (hupper : current + period / 2 ≤ upper) :
    ∃ b, placeBoundary shape kernels lower current upper = some b ∧
      current - period / 2 ≤ b ∧ b ≤ current + period / 2 := by
  unfold placeBoundary
  split_ifs with hcurrent
  · exact ⟨current, rfl, Nat.sub_le _ _, Nat.le_add_right _ _⟩
  · obtain ⟨row, hfirst, hlast, hsafe⟩ := h.window hdense (current - period / 2)
    refine nearestSafeBoundary_near hlower hupper ⟨hfirst, by omega⟩ ?_ hsafe
    rintro rfl
    exact hcurrent hsafe

/-- Boundaries more than a period apart are all placed, and no segment grows by more than a period. -/
theorem realignBoundaries_near {period size : Nat} (hdense : shape.layout = .dense)
    (h : AlignsEvery shape kernels period) : ∀ {l : List Nat} {start previous : Nat}, l ≠ [] →
      List.IsChain (fun a b => a + (2 * (period / 2) + 1) ≤ b ∧ b ≤ a + size) (start :: l) →
      start ≤ previous + period / 2 ∧ previous ≤ start + period / 2 →
      ∃ placed, realignBoundaries shape kernels previous l = some placed ∧
        List.IsChain (fun a b => a < b ∧ b ≤ a + (size + 2 * (period / 2))) (previous :: placed)
  | [], _, _, hne, _, _ => absurd rfl hne
  | [last], start, previous, _, hchain, hprevious => by
    obtain ⟨hlast, -⟩ := List.isChain_cons_cons.mp hchain
    exact ⟨[last], rfl, List.isChain_cons_cons.mpr ⟨by omega, .singleton _⟩⟩
  | current :: next :: rest, start, previous, _, hchain, hprevious => by
    obtain ⟨hcurrent, htail⟩ := List.isChain_cons_cons.mp hchain
    obtain ⟨hnext, -⟩ := List.isChain_cons_cons.mp htail
    obtain ⟨b, hb, hlow, hhigh⟩ := placeBoundary_near hdense h
      (show previous + 1 + period / 2 ≤ current by omega)
      (show current + period / 2 ≤ next - 1 by omega)
    obtain ⟨placed, hplaced, hrest⟩ := realignBoundaries_near hdense h (List.cons_ne_nil next rest)
      htail (show current ≤ b + period / 2 ∧ b ≤ current + period / 2 by omega)
    refine ⟨b :: placed, ?_, List.isChain_cons_cons.mpr ⟨by omega, hrest⟩⟩
    rw [realignBoundaries, if_neg (by omega)]
    simp only [hb, hplaced, Option.bind_eq_bind, Option.bind_some, Option.pure_def]

/-! ### The row tiles of a dense image -/

/-- The tiles of a uniform split have its quotient of rows, rounded one way or the other. -/
theorem splitFrom_outRows {count : Nat} (hcount : 0 < count) (rest : Nat) : ∀ index first : Nat,
    ∀ t ∈ Tile.splitFrom shape kernels count index first rest,
      shape.outputHeight kernels / count ≤ t.outRows ∧
        t.outRows ≤ shape.outputHeight kernels ⌈/⌉ count := by
  induction rest with
  | zero => exact fun _ _ _ h => absurd h List.not_mem_nil
  | succ rest ih =>
    intro index first t ht
    rcases List.mem_cons.mp ht with rfl | ht
    · have hdiv := Nat.div_add_mod (shape.outputHeight kernels) count
      have hround := le_ceilDiv_mul (shape.outputHeight kernels) hcount
      have hle : shape.outputHeight kernels / count ≤ shape.outputHeight kernels ⌈/⌉ count := by
        rw [Nat.ceilDiv_eq_add_pred_div]
        exact Nat.div_le_div_right (by omega)
      show shape.outputHeight kernels / count ≤ Tile.splitRows _ count index ∧ Tile.splitRows _ count index ≤ _
      unfold Tile.splitRows
      split_ifs with hindex
      · refine ⟨Nat.le_add_right _ _, Nat.succ_le_of_lt (Nat.lt_of_le_of_ne hle fun heq => ?_)⟩
        rw [← heq, Nat.mul_comm] at hround
        omega
      · exact ⟨le_rfl, hle⟩
    · exact ih _ _ t ht

/-- A uniform split with room for its boundaries is realigned. -/
theorem realign_split_near {period count maxRows : Nat} (hk : 0 < kernels.1)
    (hdense : shape.layout = .dense) (h : AlignsEvery shape kernels period)
    (hcount : 0 < count ∧ count ≤ shape.outputHeight kernels)
    (hroom : 2 * (period / 2) + 1 ≤ shape.outputHeight kernels / count)
    (hfit : rowSpan shape kernels (shape.outputHeight kernels ⌈/⌉ count + 2 * (period / 2)) ≤ maxRows) :
    (realignDenseRowTiles shape kernels (Tile.splitFrom shape kernels count 0 0 count)
      maxRows).isSome := by
  obtain ⟨hcover, -⟩ := Tile.splitFrom_cover shape kernels hcount.1 hcount.2 count 0 0 (by omega) (by simp)
  have houtRows : ∀ t ∈ Tile.splitFrom shape kernels count 0 0 count, _ :=
    splitFrom_outRows hcount.1 count 0 0
  unfold realignDenseRowTiles
  split_ifs
  · rfl
  · obtain ⟨starts, hstarts, hchain⟩ := hcover.starts_isChain
      (R := fun a b => a + (2 * (period / 2) + 1) ≤ b ∧ b ≤ a + shape.outputHeight kernels ⌈/⌉ count)
      (hcover.ne_nil (shape.outputHeight_pos kernels)) fun t ht => by
        have := houtRows t ht
        omega
    obtain ⟨placed, hplaced, hnear⟩ := realignBoundaries_near hdense h (by simp) hchain
      ⟨Nat.zero_le _, Nat.zero_le _⟩
    simp only [hstarts, hplaced, Option.bind_eq_bind, Option.bind_some]
    rw [if_pos]
    · rfl
    · refine List.all_eq_true.mpr fun t ht => decide_eq_true ?_
      obtain ⟨a, b, rfl, hab, hsize⟩ := mem_cutAt_of_isChain hnear ht
      refine (inRows_le_rowSpan a (by omega) hk).trans ((rowSpan_mono ?_).trans hfit)
      omega

/-! ### When the planner finds them -/

/-- The row tiles can be moved to input rows that begin a feature atom, within the capacity. -/
def Realigns (shape : Shape) (kernels : Kernels) (maxRows : Nat) (tiles : List Tile) : Prop :=
  (realignDenseRowTiles shape kernels tiles maxRows).isSome

/-- The greedy filler cuts the rows, and its tiles or those of a uniform split within the capacity can
be realigned. -/
def DenseRowsCut (shape : Shape) (kernels : Kernels) (maxRows : Nat) : Prop :=
  ∃ greedy, Tile.splitGreedyToCapacity shape kernels maxRows = some greedy ∧
    (Realigns shape kernels maxRows greedy ∨
      ∃ count, 0 < count ∧ count ≤ shape.outputHeight kernels ∧
        (∀ t ∈ Tile.splitFrom shape kernels count 0 0 count, t.inRows ≤ maxRows) ∧
        Realigns shape kernels maxRows (Tile.splitFrom shape kernels count 0 0 count))

theorem firstUniformSplit_some_iff (maxRows rest : Nat) : ∀ count : Nat, 0 < count →
    count + rest = shape.outputHeight kernels + 1 →
    ((∃ rows, firstUniformSplit shape kernels maxRows count rest = .ok (some rows)) ↔
      ∃ n, (count ≤ n ∧ n ≤ shape.outputHeight kernels) ∧
        (∀ t ∈ Tile.splitFrom shape kernels n 0 0 n, t.inRows ≤ maxRows) ∧
        Realigns shape kernels maxRows (Tile.splitFrom shape kernels n 0 0 n)) := by
  induction rest with
  | zero =>
    intro count hcount hsum
    constructor
    · rintro ⟨rows, h⟩
      cases h
    · rintro ⟨n, hn, -⟩
      omega
  | succ rest ih =>
    intro count hcount hsum
    have hsplit : Tile.split shape kernels count =
        .ok (Tile.splitFrom shape kernels count 0 0 count) := by
      unfold Tile.split
      simp only [bind_ok, assertThat_ok, pure_ok, exists_const, and_true]
      omega
    have hrest := ih (count + 1) (Nat.succ_pos count) (by omega)
    -- The counts from `count` on are `count` itself and those after it.
    have hcases : ∀ P : Nat → Prop, (∃ n, (count ≤ n ∧ n ≤ shape.outputHeight kernels) ∧ P n) ↔
        P count ∨ ∃ n, (count + 1 ≤ n ∧ n ≤ shape.outputHeight kernels) ∧ P n := by
      intro P
      constructor
      · rintro ⟨n, hn, hP⟩
        by_cases heq : n = count
        · exact .inl (heq ▸ hP)
        · exact .inr ⟨n, by omega, hP⟩
      · rintro (hP | ⟨n, hn, hP⟩)
        · exact ⟨count, by omega, hP⟩
        · exact ⟨n, by omega, hP⟩
    rw [hcases, ← hrest, firstUniformSplit]
    simp only [bind_ok, hsplit, Except.ok.injEq, exists_eq_left', List.all_eq_true,
      decide_eq_true_eq]
    by_cases hfit : ∀ t ∈ Tile.splitFrom shape kernels count 0 0 count, t.inRows ≤ maxRows
    · rw [if_pos hfit]
      unfold Realigns
      cases hr : realignDenseRowTiles shape kernels (Tile.splitFrom shape kernels count 0 0 count)
          maxRows with
      | some realigned => exact ⟨fun _ => .inl ⟨hfit, rfl⟩, fun _ => ⟨realigned, rfl⟩⟩
      | none => exact ⟨.inr, fun h => h.resolve_left (by simp)⟩
    · rw [if_neg hfit]
      exact ⟨.inr, fun h => h.resolve_left fun hleft => hfit hleft.1⟩

theorem rowTiles_some_iff (maxRows : Nat) :
    (∃ rows, rowTiles shape kernels maxRows = .ok (some rows)) ↔
      DenseRowsCut shape kernels maxRows := by
  unfold rowTiles DenseRowsCut
  cases Tile.splitGreedyToCapacity shape kernels maxRows with
  | none =>
    constructor
    · rintro ⟨rows, h⟩
      cases h
    · rintro ⟨greedy, h, -⟩
      cases h
  | some greedy =>
    simp only [Option.some.injEq, exists_eq_left', Realigns]
    cases realignDenseRowTiles shape kernels greedy maxRows with
    | some realigned => exact ⟨fun _ => .inl rfl, fun _ => ⟨realigned, rfl⟩⟩
    | none =>
      refine (firstUniformSplit_some_iff maxRows _ 1 Nat.one_pos (by omega)).trans ?_
      constructor
      · rintro ⟨n, hn, h⟩
        exact .inr ⟨n, hn.1, hn.2, h⟩
      · rintro (h | ⟨n, hpos, hle, h⟩)
        · cases h
        · exact ⟨n, ⟨hpos, hle⟩, h⟩

/-- The image fits the capacity whole, or its rows are cut at feature atoms with room to spare. -/
theorem rowTiles_of_alignedRowsFit {maxRows : Nat} (hk : KernelFits shape kernels)
    (hstride : 0 < shape.stride) (hdense : shape.layout = .dense)
    (h : (Tile.whole shape kernels).inRows ≤ maxRows ∨ AlignedRowsFit shape kernels maxRows) :
    ∃ rows, rowTiles shape kernels maxRows = .ok (some rows) := by
  rw [rowTiles_some_iff]
  rcases h with hwhole | ⟨period, count, halign, hcount, hroom, hfit⟩
  · refine ⟨[Tile.whole shape kernels], if_pos hwhole, .inl ?_⟩
    unfold Realigns realignDenseRowTiles
    rw [if_pos (.inr le_rfl)]
    rfl
  · have hone : rowSpan shape kernels 1 ≤ maxRows := by
      have hpos := ceilDiv_pos (shape.outputHeight_pos kernels) hcount.1
      exact (rowSpan_mono (by omega)).trans hfit
    unfold rowSpan at hone
    simp only [Nat.sub_self, Nat.zero_mul, Nat.zero_add, Nat.one_mul] at hone
    obtain ⟨greedy, hgreedy⟩ := (Tile.splitGreedy_isSome_iff hk hstride maxRows).mpr (.inr hone)
    refine ⟨greedy, hgreedy, .inr ⟨count, hcount.1, hcount.2, fun t ht => ?_,
      realign_split_near hk.height_pos hdense halign hcount hroom hfit⟩⟩
    have houtRows := splitFrom_outRows hcount.1 count 0 0 t ht
    have hbounds := (Tile.splitFrom_cover shape kernels hcount.1 hcount.2 count 0 0 (by omega)
      (by simp)).2 t ht
    rw [hbounds]
    exact (inRows_le_rowSpan _ (by omega) hk.height_pos).trans ((rowSpan_mono (by omega)).trans hfit)

end Rows

end IreeRocket.Conv
