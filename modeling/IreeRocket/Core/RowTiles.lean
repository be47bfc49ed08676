import IreeRocket.Core.Plan

/-!
# The row tiles of a column

Three sources produce the row tiles of one column: the greedy filler, the uniform split and the
realignment of either. `RowSplit` is what the planner relies on in all of them: the tiles cover the
output rows, each is `Tile.fromBounds` of its own range, none holds more input rows than the
capacity, and every one begins at a row the CNA can address.
-/

namespace IreeRocket.Conv

open Segments

/-- The tiles cover the output rows, each with the bounds the planner computes for its range. -/
structure RowCover (shape : Shape) (kernels : Kernels) (tiles : List Tile) : Prop where
  covers : Covers Tile.outFirst Tile.outRows 0 tiles (shape.outputHeight kernels)
  bounds : ∀ t ∈ tiles, t = Tile.fromBounds shape kernels t.outFirst t.outRows

/-- A row cover whose tiles fit a capacity and begin where the feature engine can read. -/
structure RowSplit (shape : Shape) (kernels : Kernels) (maxRows : Nat) (tiles : List Tile) : Prop
    extends RowCover shape kernels tiles where
  rows_le : ∀ t ∈ tiles, t.inRows ≤ maxRows
  safe : ∀ t ∈ tiles, shape.denseFeatureOffsetSafe t.inFirst

namespace Tile

@[simp] theorem fromBounds_outFirst (shape : Shape) (kernels : Kernels) (a n : Nat) :
    (fromBounds shape kernels a n).outFirst = a := rfl

@[simp] theorem fromBounds_outRows (shape : Shape) (kernels : Kernels) (a n : Nat) :
    (fromBounds shape kernels a n).outRows = n := rfl

@[simp] theorem fromBounds_inFirst (shape : Shape) (kernels : Kernels) (a n : Nat) :
    (fromBounds shape kernels a n).inFirst = shape.tileInFirst kernels a := rfl

/-! ### The uniform split -/

theorem splitRows_pos {outputHeight tiles : Nat} (index : Nat) (h0 : 0 < tiles)
    (h : tiles ≤ outputHeight) : 0 < splitRows outputHeight tiles index := by
  unfold splitRows
  have := Nat.div_pos h h0
  omega

/-- The rows before tile `index` of the uniform split. -/
theorem splitRows_sum (outputHeight tiles index : Nat) :
    index * (outputHeight / tiles) + min index (outputHeight % tiles) +
        splitRows outputHeight tiles index =
      (index + 1) * (outputHeight / tiles) + min (index + 1) (outputHeight % tiles) := by
  unfold splitRows
  rw [Nat.add_mul]
  split_ifs <;> omega

theorem splitFrom_cover (shape : Shape) (kernels : Kernels) {tiles : Nat} (h0 : 0 < tiles)
    (h : tiles ≤ shape.outputHeight kernels) (rest : Nat) : ∀ index outFirst : Nat,
    index + rest = tiles →
    outFirst = index * (shape.outputHeight kernels / tiles) +
      min index (shape.outputHeight kernels % tiles) →
    Covers Tile.outFirst Tile.outRows outFirst (splitFrom shape kernels tiles index outFirst rest)
        (shape.outputHeight kernels) ∧
      ∀ t ∈ splitFrom shape kernels tiles index outFirst rest,
        t = fromBounds shape kernels t.outFirst t.outRows := by
  induction rest with
  | zero =>
    intro index outFirst hindex hfirst
    refine ⟨?_, by simp [splitFrom]⟩
    have hend : outFirst = shape.outputHeight kernels := by
      have hmod := Nat.mod_lt (shape.outputHeight kernels) h0
      have hdiv := Nat.div_add_mod (shape.outputHeight kernels) tiles
      rw [hfirst, show index = tiles by omega, Nat.min_eq_right (by omega)]
      omega
    rw [splitFrom, ← hend]
    exact .nil _
  | succ rest ih =>
    intro index outFirst hindex hfirst
    obtain ⟨hcovers, hbounds⟩ := ih (index + 1)
      (outFirst + splitRows (shape.outputHeight kernels) tiles index) (by omega)
      (by rw [hfirst]; exact splitRows_sum _ _ _)
    rw [splitFrom]
    refine ⟨.cons' rfl (splitRows_pos index h0 h) hcovers, ?_⟩
    intro t ht
    rcases List.mem_cons.mp ht with rfl | ht
    · rfl
    · exact hbounds t ht

theorem split_cover {shape : Shape} {kernels : Kernels} {count : Nat} {tiles : List Tile}
    (h : split shape kernels count = .ok tiles) : RowCover shape kernels tiles := by
  unfold split at h
  simp only [bind_ok, assertThat_ok, pure_ok, exists_const] at h
  obtain ⟨⟨h1, h2⟩, rfl⟩ := h
  obtain ⟨hcovers, hbounds⟩ := splitFrom_cover shape kernels h1 h2 count 0 0 (by omega) (by simp)
  exact ⟨hcovers, hbounds⟩

/-! ### The greedy filler -/

theorem findDown_some {fits : Nat → Bool} {n k : Nat} (h : findDown fits n = some k) :
    fits k = true ∧ 0 < k ∧ k ≤ n := by
  induction n with
  | zero => simp [findDown] at h
  | succ n ih =>
    rw [findDown] at h
    split_ifs at h with hfits
    · obtain rfl := Option.some.inj h
      exact ⟨hfits, by omega, by omega⟩
    · obtain ⟨h1, h2, h3⟩ := ih h
      exact ⟨h1, h2, by omega⟩

/-- A tile never fetches more rows than its unclipped grain charges. -/
theorem inRows_le_capacityRows (shape : Shape) (kernels : Kernels) (a n : Nat) :
    (fromBounds shape kernels a n).inRows ≤ capacityRows shape kernels a n := by
  unfold fromBounds capacityRows
  simp only
  omega

theorem greedyFrom_cover {shape : Shape} {kernels : Kernels} {maxRows : Nat} (fuel : Nat) :
    ∀ {a : Nat} {tiles : List Tile}, a ≤ shape.outputHeight kernels →
      greedyFrom shape kernels maxRows fuel a = some tiles →
      Covers Tile.outFirst Tile.outRows a tiles (shape.outputHeight kernels) ∧
        (∀ t ∈ tiles, t = fromBounds shape kernels t.outFirst t.outRows) ∧
        ∀ t ∈ tiles, t.inRows ≤ maxRows := by
  induction fuel with
  | zero =>
    intro a tiles ha h
    rw [greedyFrom] at h
    split_ifs at h with hlt
    obtain rfl := Option.some.inj h
    rw [show a = shape.outputHeight kernels by omega]
    exact ⟨.nil _, by simp, by simp⟩
  | succ fuel ih =>
    intro a tiles ha h
    rw [greedyFrom] at h
    split_ifs at h with hlt
    · simp only [Option.bind_eq_bind, Option.bind_eq_some_iff, Option.pure_def,
        Option.some.injEq] at h
      obtain ⟨outRows, hfind, rest, hrest, rfl⟩ := h
      obtain ⟨hfits, hpos, hle⟩ := findDown_some hfind
      obtain ⟨hcovers, hbounds, hrows⟩ := ih (by omega) hrest
      refine ⟨.cons' rfl hpos hcovers, ?_, ?_⟩
      · intro t ht
        rcases List.mem_cons.mp ht with rfl | ht
        · rfl
        · exact hbounds t ht
      · intro t ht
        rcases List.mem_cons.mp ht with rfl | ht
        · exact (inRows_le_capacityRows shape kernels a outRows).trans (of_decide_eq_true hfits)
        · exact hrows t ht
    · obtain rfl := Option.some.inj h
      rw [show a = shape.outputHeight kernels by omega]
      exact ⟨.nil _, by simp, by simp⟩

theorem splitGreedy_cover {shape : Shape} {kernels : Kernels} {maxRows : Nat} {tiles : List Tile}
    (h : splitGreedyToCapacity shape kernels maxRows = some tiles) :
    RowCover shape kernels tiles ∧ ∀ t ∈ tiles, t.inRows ≤ maxRows := by
  unfold splitGreedyToCapacity at h
  simp only at h
  split_ifs at h with hwhole
  · obtain rfl := Option.some.inj h
    refine ⟨⟨.singleton rfl (shape.outputHeight_pos kernels) (by simp), ?_⟩, ?_⟩
    · intro t ht
      obtain rfl := List.mem_singleton.mp ht
      rfl
    · intro t ht
      obtain rfl := List.mem_singleton.mp ht
      exact hwhole
  · obtain ⟨hcovers, hbounds, hrows⟩ := greedyFrom_cover _ (Nat.zero_le _) h
    exact ⟨⟨hcovers, hbounds⟩, hrows⟩

end Tile

/-! ### Realignment -/

theorem nearestSafeBoundary_some {shape : Shape} {kernels : Kernels} {lower current upper b : Nat}
    (h : nearestSafeBoundary shape kernels lower current upper = some b) :
    lower ≤ b ∧ b ≤ upper ∧ shape.denseFeatureOffsetSafe (shape.tileInFirst kernels b) := by
  unfold nearestSafeBoundary at h
  simp only at h
  obtain ⟨distance, -, hfind⟩ := List.exists_of_findSome?_eq_some h
  have := List.find?_some hfind
  simpa [and_assoc] using this

/-- Where one inner boundary goes: strictly between its neighbours, at a safe input row. -/
theorem placeBoundary_some {shape : Shape} {kernels : Kernels} {previous current next b : Nat}
    (hprev : previous < current) (hnext : current < next)
    (h : placeBoundary shape kernels (previous + 1) current (next - 1) = some b) :
    previous < b ∧ b < next ∧ shape.denseFeatureOffsetSafe (shape.tileInFirst kernels b) := by
  unfold placeBoundary at h
  split_ifs at h with hsafe
  · obtain rfl := Option.some.inj h
    exact ⟨hprev, hnext, hsafe⟩
  · obtain ⟨h1, h2, h3⟩ := nearestSafeBoundary_some h
    exact ⟨by omega, by omega, h3⟩

/-- Realigned boundaries stay strictly increasing and end where they ended, and every inner one is
safe. -/
theorem realignBoundaries_some {shape : Shape} {kernels : Kernels} :
    ∀ {l : List Nat} {previous : Nat} {placed : List Nat}, l ≠ [] →
      List.IsChain (· < ·) (previous :: l) →
      realignBoundaries shape kernels previous l = some placed →
      List.IsChain (· < ·) (previous :: placed) ∧ placed.getLastD previous = l.getLastD previous ∧
        ∀ b ∈ placed, b = placed.getLastD previous ∨
          shape.denseFeatureOffsetSafe (shape.tileInFirst kernels b)
  | [], _, _, hne, _, _ => absurd rfl hne
  | [last], previous, placed, _, hchain, h => by
    rw [realignBoundaries] at h
    · obtain rfl := Option.some.inj h
      exact ⟨hchain, rfl, by simp⟩
    · simp
  | current :: next :: rest, previous, placed, _, hchain, h => by
    obtain ⟨hprev, htail⟩ := List.isChain_cons_cons.mp hchain
    obtain ⟨hnext, hrest⟩ := List.isChain_cons_cons.mp htail
    rw [realignBoundaries] at h
    have hroom : ¬ previous + 1 > next - 1 := by omega
    simp only [if_neg hroom, Option.bind_eq_bind, Option.bind_eq_some_iff, Option.pure_def,
      Option.some.injEq] at h
    obtain ⟨b, hb, tail, htl, rfl⟩ := h
    obtain ⟨hb1, hb2, hb3⟩ := placeBoundary_some hprev hnext hb
    obtain ⟨ih1, ih2, ih3⟩ := realignBoundaries_some (List.cons_ne_nil _ _)
      (List.isChain_cons_cons.mpr ⟨hb2, hrest⟩) htl
    rw [List.getLastD_cons, List.getLastD_cons]
    refine ⟨List.isChain_cons_cons.mpr ⟨hb1, ih1⟩, by rw [ih2, List.getLastD_cons, List.getLastD_cons], ?_⟩
    intro x hx
    rcases List.mem_cons.mp hx with rfl | hx
    · exact .inr hb3
    · exact ih3 x hx

theorem safe_of_surfaces {shape : Shape} (h : shape.layout = .surfaces) (row : Nat) :
    shape.denseFeatureOffsetSafe row := by
  unfold Shape.denseFeatureOffsetSafe
  rw [h]

theorem safe_zero (shape : Shape) : shape.denseFeatureOffsetSafe 0 := by
  unfold Shape.denseFeatureOffsetSafe
  cases shape.layout <;> simp

@[simp] theorem tileInFirst_zero (shape : Shape) (kernels : Kernels) :
    shape.tileInFirst kernels 0 = 0 := by
  simp [Shape.tileInFirst]

/-- **Realignment keeps the cover.** What `realignDenseRowTiles` returns covers the same output
rows; each tile fits the capacity and begins at a safe row. -/
theorem realign_split {shape : Shape} {kernels : Kernels} {tiles realigned : List Tile}
    {maxRows : Nat} (hcover : RowCover shape kernels tiles)
    (hrows : ∀ t ∈ tiles, t.inRows ≤ maxRows)
    (h : realignDenseRowTiles shape kernels tiles maxRows = some realigned) :
    RowSplit shape kernels maxRows realigned := by
  have hne : tiles ≠ [] := hcover.covers.ne_nil (shape.outputHeight_pos kernels)
  obtain ⟨starts, hstarts, hchain⟩ := hcover.covers.starts_chain hne
  unfold realignDenseRowTiles at h
  split_ifs at h with hkeep
  · obtain rfl := Option.some.inj h
    refine ⟨hcover, hrows, fun t ht => ?_⟩
    rcases hkeep with hsurf | hone
    · refine safe_of_surfaces ?_ _
      cases hl : shape.layout with
      | dense => exact absurd hl hsurf
      | surfaces => rfl
    · -- A single tile begins at row zero.
      have hfirst : t.outFirst = 0 := by
        obtain ⟨x, rfl⟩ := List.length_eq_one_iff.mp
          (show tiles.length = 1 by have := List.length_pos_iff.mpr hne; omega)
        obtain rfl := List.mem_singleton.mp ht
        simpa using (List.cons.inj hstarts).1
      rw [hcover.bounds t ht, Tile.fromBounds_inFirst, hfirst, tileInFirst_zero]
      exact safe_zero shape
  · rw [hstarts] at h
    simp only [Option.bind_eq_bind, Option.bind_eq_some_iff] at h
    obtain ⟨boundaries, hplaced, h⟩ := h
    split_ifs at h with hall
    obtain rfl := Option.some.inj h
    obtain ⟨hinc, hlast, hsafe⟩ := realignBoundaries_some (by simp) hchain hplaced
    rw [List.getLastD_concat] at hlast
    have hcovers := covers_cutAt Tile.outFirst Tile.outRows
      (fun a b => Tile.fromBounds shape kernels a (b - a)) (fun _ _ => rfl) (fun _ _ => rfl)
      0 boundaries hinc
    rw [hlast] at hcovers
    refine ⟨⟨hcovers, ?_⟩, ?_, ?_⟩
    · intro t ht
      obtain ⟨x, y, rfl, -⟩ := mem_cutAt hinc ht
      rfl
    · intro t ht
      exact of_decide_eq_true (List.all_eq_true.mp hall t ht)
    · intro t ht
      obtain ⟨x, y, rfl, hxy, hy, hx⟩ := mem_cutAt hinc ht
      rcases hx with rfl | hx
      · rw [Tile.fromBounds_inFirst, tileInFirst_zero]
        exact safe_zero shape
      · rcases hsafe x hx with h | h
        · omega
        · exact h

/-! ### The planner's row tiles -/

theorem firstUniformSplit_split {shape : Shape} {kernels : Kernels} {maxRows : Nat} (rest : Nat) :
    ∀ {count : Nat} {rows : List Tile},
      firstUniformSplit shape kernels maxRows count rest = .ok (some rows) →
      RowSplit shape kernels maxRows rows := by
  induction rest with
  | zero => intro count rows h; cases h
  | succ rest ih =>
    intro count rows h
    rw [firstUniformSplit, bind_ok] at h
    obtain ⟨tiles, hsplit, h⟩ := h
    split_ifs at h with hall
    · cases hr : realignDenseRowTiles shape kernels tiles maxRows with
      | none => rw [hr] at h; exact ih h
      | some realigned =>
        rw [hr] at h
        obtain rfl : realigned = rows := by simpa [pure_ok] using h
        refine realign_split (Tile.split_cover hsplit) (fun t ht => ?_) hr
        exact of_decide_eq_true (List.all_eq_true.mp hall t ht)
    · exact ih h

/-- The row tiles the planner gives a column. -/
theorem rowTiles_split {shape : Shape} {kernels : Kernels} {maxRows : Nat} {rows : List Tile}
    (h : rowTiles shape kernels maxRows = .ok (some rows)) : RowSplit shape kernels maxRows rows := by
  unfold rowTiles at h
  cases hg : Tile.splitGreedyToCapacity shape kernels maxRows with
  | none => rw [hg] at h; cases h
  | some greedy =>
    rw [hg] at h
    simp only at h
    cases hr : realignDenseRowTiles shape kernels greedy maxRows with
    | none => rw [hr] at h; exact firstUniformSplit_split _ h
    | some realigned =>
      rw [hr] at h
      obtain rfl : realigned = rows := by simpa [pure_ok] using h
      obtain ⟨hcover, hrows⟩ := Tile.splitGreedy_cover hg
      exact realign_split hcover hrows hr

end IreeRocket.Conv
