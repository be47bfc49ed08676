import Mathlib.Algebra.BigOperators.Group.List.Basic
import Mathlib.Algebra.GroupWithZero.Nat
import Mathlib.Tactic.Ring

/-!
# Padding row-major tensors

A tensor is a shape and its elements in row-major order, so a reshape keeps the elements. A padding is
described by the place it takes each element from (`sourcePlace`). Where it pads two adjacent axes by
even amounts, it is one of a `Plane`: blocks of rows of cells. Two planes padded by the same amounts give
the same elements, whatever they are, exactly when every padded axis has the same extent and the same
stride in both (`Plane.pad_eq_iff`): where the filling ends first, and where it begins again, tells both.
-/

namespace IreeRocket.RowMajor

/-- A tensor, its elements in row-major order. -/
@[ext] structure Tensor (α : Type) where
  shape : List Nat
  elements : List α
  whole : elements.length = shape.prod

/-- The elements of a tensor under another shape of as many. -/
def Tensor.reshape {α : Type} (x : Tensor α) (shape : List Nat) : Tensor α :=
  if h : shape.prod = x.shape.prod then ⟨shape, x.elements, x.whole.trans h.symm⟩ else x

/-- One axis of a padding. A negative amount crops. -/
structure Axis where
  low : Int
  extent : Nat
  high : Int
  deriving DecidableEq, Repr

namespace Axis

def padded (axis : Axis) : Nat := (axis.low + axis.extent + axis.high).toNat

/-- An axis padded by as much on both sides. -/
def even (extent amount : Nat) : Axis := ⟨amount, extent, amount⟩

/-- An axis that is not padded. -/
def kept (extent : Nat) : Axis := even extent 0

@[simp] theorem padded_even (n amount : Nat) : (even n amount).padded = n + 2 * amount := by
  simp only [even, padded]
  omega

@[simp] theorem padded_kept (n : Nat) : (kept n).padded = n := padded_even n 0

end Axis

def sourceCount (axes : List Axis) : Nat := (axes.map Axis.extent).prod

def paddedCount (axes : List Axis) : Nat := (axes.map Axis.padded).prod

/-- The place in the source of the padded element at a place, if it is none of the filling. -/
def sourcePlace : List Axis → Nat → Option Nat
  | [], _ => some 0
  | axis :: axes, k =>
    let i : Int := (k / paddedCount axes : Nat) - axis.low
    if 0 ≤ i ∧ i < axis.extent then
      (sourcePlace axes (k % paddedCount axes)).map (i.toNat * sourceCount axes + ·)
    else none

/-- The axes of a tensor and the amounts it is padded by. -/
def axesOf : List Int → List Nat → List Int → List Axis
  | low :: lows, extent :: shape, high :: highs => ⟨low, extent, high⟩ :: axesOf lows shape highs
  | _, _, _ => []

/-- `tensor.pad` with a constant. -/
def Tensor.pad {α : Type} (x : Tensor α) (low high : List Int) (fill : α) : Tensor α where
  shape := (axesOf low x.shape high).map Axis.padded
  elements := (List.range (paddedCount (axesOf low x.shape high))).map fun k =>
    ((sourcePlace (axesOf low x.shape high) k).bind fun j => x.elements[j]?).getD fill
  whole := by rw [List.length_map, List.length_range, paddedCount]

section Tensors

variable {α : Type}

@[simp] theorem Tensor.reshape_elements (x : Tensor α) (shape : List Nat) :
    (x.reshape shape).elements = x.elements := by
  unfold Tensor.reshape
  split_ifs <;> rfl

theorem Tensor.reshape_shape {x : Tensor α} {shape : List Nat} (h : shape.prod = x.shape.prod) :
    (x.reshape shape).shape = shape := by
  unfold Tensor.reshape
  rw [dif_pos h]

end Tensors

/-! ### Where the elements of a padding come from -/

variable {axes : List Axis}

@[simp] theorem paddedCount_nil : paddedCount [] = 1 := rfl

@[simp] theorem paddedCount_cons (axis : Axis) : paddedCount (axis :: axes) = axis.padded * paddedCount axes := by
  simp [paddedCount]

@[simp] theorem sourceCount_nil : sourceCount [] = 1 := rfl

@[simp] theorem sourceCount_cons (axis : Axis) : sourceCount (axis :: axes) = axis.extent * sourceCount axes := by
  simp [sourceCount]

theorem paddedCount_kept (shape : List Nat) : paddedCount (shape.map Axis.kept) = shape.prod := by
  induction shape with
  | nil => rfl
  | cons n shape ih => rw [List.map_cons, paddedCount_cons, ih, Axis.padded_kept, List.prod_cons]

theorem sourceCount_kept (shape : List Nat) : sourceCount (shape.map Axis.kept) = shape.prod := by
  induction shape with
  | nil => rfl
  | cons n shape ih => rw [List.map_cons, sourceCount_cons, ih, Axis.kept, Axis.even, List.prod_cons]

theorem sourcePlace_lt {k j : Nat} (hk : k < paddedCount axes) (h : sourcePlace axes k = some j) :
    j < sourceCount axes := by
  induction axes generalizing k j with
  | nil =>
    obtain rfl := Option.some.inj h
    exact Nat.one_pos
  | cons axis axes ih =>
    rw [paddedCount_cons] at hk
    have hpos : 0 < paddedCount axes := by
      rcases Nat.eq_zero_or_pos (paddedCount axes) with hzero | hpos
      · simp [hzero] at hk
      · exact hpos
    unfold sourcePlace at h
    dsimp only at h
    split_ifs at h with hrange
    obtain ⟨j', hj', rfl⟩ := Option.map_eq_some_iff.mp h
    have hj := ih (Nat.mod_lt k hpos) hj'
    rw [sourceCount_cons]
    set i := ((k / paddedCount axes : Nat) - axis.low : Int) with hi
    have hrow : i.toNat + 1 ≤ axis.extent := by omega
    calc i.toNat * sourceCount axes + j' < (i.toNat + 1) * sourceCount axes := by
          rw [Nat.add_mul, Nat.one_mul]
          exact Nat.add_lt_add_left hj _
      _ ≤ axis.extent * sourceCount axes := Nat.mul_le_mul_right _ hrow

theorem sourcePlace_even (n amount k : Nat) :
    sourcePlace (Axis.even n amount :: axes) k =
      if amount ≤ k / paddedCount axes ∧ k / paddedCount axes < amount + n then
        (sourcePlace axes (k % paddedCount axes)).map
          ((k / paddedCount axes - amount) * sourceCount axes + ·)
      else none := by
  rw [sourcePlace]
  dsimp only [Axis.even]
  have hrow : ((k / paddedCount axes : Nat) - (amount : Int)).toNat = k / paddedCount axes - amount := by
    omega
  rw [hrow]
  refine if_congr ?_ rfl rfl
  omega

/-- Axes that are not padded, above others, only count blocks. -/
theorem sourcePlace_kept_append (shape : List Nat) {k : Nat}
    (hk : k < shape.prod * paddedCount axes) :
    sourcePlace (shape.map Axis.kept ++ axes) k =
      (sourcePlace axes (k % paddedCount axes)).map (k / paddedCount axes * sourceCount axes + ·) := by
  induction shape generalizing k with
  | nil =>
    rw [List.prod_nil, Nat.one_mul] at hk
    rw [List.map_nil, List.nil_append, Nat.div_eq_of_lt hk, Nat.mod_eq_of_lt hk]
    simp
  | cons n shape ih =>
    have hblock : paddedCount (shape.map Axis.kept ++ axes) = shape.prod * paddedCount axes := by
      rw [paddedCount, List.map_append, List.prod_append, ← paddedCount, ← paddedCount, paddedCount_kept]
    have hsource : sourceCount (shape.map Axis.kept ++ axes) = shape.prod * sourceCount axes := by
      rw [sourceCount, List.map_append, List.prod_append, ← sourceCount, ← sourceCount, sourceCount_kept]
    rw [List.prod_cons, Nat.mul_assoc] at hk
    have hpos : 0 < shape.prod * paddedCount axes := by
      rcases Nat.eq_zero_or_pos (shape.prod * paddedCount axes) with hzero | hpos
      · simp [hzero] at hk
      · exact hpos
    have hrow : k / (shape.prod * paddedCount axes) < n := (Nat.div_lt_iff_lt_mul hpos).mpr hk
    rw [List.map_cons, List.cons_append, Axis.kept, sourcePlace_even, hblock, hsource,
      if_pos ⟨Nat.zero_le _, by omega⟩, Nat.sub_zero, ih (Nat.mod_lt _ hpos), Option.map_map,
      Nat.mod_mul_left_mod]
    congr 1
    funext j
    have hdiv : k / paddedCount axes = k / (shape.prod * paddedCount axes) * shape.prod +
        k % (shape.prod * paddedCount axes) / paddedCount axes := by
      rw [Nat.mul_comm shape.prod, Nat.mod_mul_right_div_self, ← Nat.div_div_eq_div_mul]
      exact (Nat.div_add_mod' _ _).symm
    rw [Function.comp_apply, hdiv]
    ring

theorem sourcePlace_kept (shape : List Nat) {k : Nat} (hk : k < shape.prod) :
    sourcePlace (shape.map Axis.kept) k = some k := by
  have h : sourcePlace (shape.map Axis.kept ++ []) k =
      (sourcePlace [] (k % paddedCount [])).map (k / paddedCount [] * sourceCount [] + ·) :=
    sourcePlace_kept_append shape (by simpa using hk)
  simpa [sourcePlace] using h

/-! ### Two adjacent axes -/

/-- A padding of two adjacent axes: blocks of `height` rows of `width` cells of `inner` elements. -/
structure Plane where
  outer : Nat
  height : Nat
  width : Nat
  inner : Nat
  top : Nat
  left : Nat
  deriving DecidableEq, Repr

namespace Plane

def paddedHeight (p : Plane) : Nat := p.height + 2 * p.top

def paddedWidth (p : Plane) : Nat := p.width + 2 * p.left

/-- The elements of a padded row. -/
def rowStride (p : Plane) : Nat := p.paddedWidth * p.inner

def count (p : Plane) : Nat := p.outer * (p.height * (p.width * p.inner))

def total (p : Plane) : Nat := p.outer * (p.paddedHeight * p.rowStride)

/-- The row and the cell of an element in its block. -/
def row (p : Plane) (k : Nat) : Nat := k / p.rowStride % p.paddedHeight

def cell (p : Plane) (k : Nat) : Nat := k / p.inner % p.paddedWidth

/-- An element that is none of the filling. -/
def Live (p : Plane) (k : Nat) : Prop :=
  (p.top ≤ p.row k ∧ p.row k < p.top + p.height) ∧ (p.left ≤ p.cell k ∧ p.cell k < p.left + p.width)

instance (p : Plane) (k : Nat) : Decidable (p.Live k) := inferInstanceAs (Decidable (_ ∧ _))

def index (p : Plane) (k : Nat) : Option Nat :=
  if p.Live k then
    some (k / (p.paddedHeight * p.rowStride) * (p.height * (p.width * p.inner)) +
      ((p.row k - p.top) * (p.width * p.inner) + ((p.cell k - p.left) * p.inner + k % p.inner)))
  else none

/-- Two paddings agree on the extent and the stride of every axis that is padded. -/
def Agree (p p' : Plane) : Prop :=
  (0 < p.top → p.paddedHeight = p'.paddedHeight ∧ p.rowStride = p'.rowStride) ∧
    (0 < p.left → p.paddedWidth = p'.paddedWidth ∧ p.inner = p'.inner)

variable {p p' : Plane} {k : Nat}

theorem inner_pos (hk : k < p.total) : 0 < p.inner := by
  unfold total rowStride at hk
  rcases Nat.eq_zero_or_pos p.inner with h | h
  · simp [h] at hk
  · exact h

/-- A padding of two axes between others is one of a plane. -/
theorem sourcePlace_eq {pre post : List Nat} (hpre : pre.prod = p.outer) (hpost : post.prod = p.inner)
    (hk : k < p.total) :
    sourcePlace (pre.map Axis.kept ++
      Axis.even p.height p.top :: Axis.even p.width p.left :: post.map Axis.kept) k = p.index k := by
  have hrows : paddedCount (Axis.even p.height p.top :: Axis.even p.width p.left :: post.map Axis.kept) =
      p.paddedHeight * p.rowStride := by
    rw [paddedCount_cons, paddedCount_cons, paddedCount_kept, Axis.padded_even, Axis.padded_even, hpost]
    rfl
  have hcells : paddedCount (Axis.even p.width p.left :: post.map Axis.kept) = p.rowStride := by
    rw [paddedCount_cons, paddedCount_kept, Axis.padded_even, hpost]
    rfl
  have hrow : k % (p.paddedHeight * p.rowStride) / p.rowStride = p.row k := by
    rw [Nat.mul_comm, Nat.mod_mul_right_div_self]
    rfl
  have hcell : k % (p.paddedHeight * p.rowStride) % p.rowStride / p.inner = p.cell k := by
    rw [Nat.mod_mul_left_mod, rowStride, Nat.mul_comm, Nat.mod_mul_right_div_self]
    rfl
  have hrest : k % (p.paddedHeight * p.rowStride) % p.rowStride % p.inner = k % p.inner := by
    rw [Nat.mod_mul_left_mod, rowStride, Nat.mod_mul_left_mod]
  have hkept : sourcePlace (post.map Axis.kept) (k % p.inner) = some (k % p.inner) :=
    sourcePlace_kept post (by rw [hpost]; exact Nat.mod_lt k (inner_pos hk))
  rw [sourcePlace_kept_append pre (by rw [hrows, hpre]; exact hk), hrows, sourcePlace_even, hcells,
    sourcePlace_even, paddedCount_kept, hpost, hrow, hcell, hrest, hkept]
  simp only [sourceCount_cons, sourceCount_kept, hpost, Axis.even]
  unfold index
  by_cases hlive : p.top ≤ p.row k ∧ p.row k < p.top + p.height
  · by_cases hin : p.left ≤ p.cell k ∧ p.cell k < p.left + p.width
    · rw [if_pos hlive, if_pos hin, if_pos (show p.Live k from ⟨hlive, hin⟩)]
      rfl
    · rw [if_pos hlive, if_neg hin, if_neg fun h : p.Live k => hin h.2]
      rfl
  · rw [if_neg hlive, if_neg fun h : p.Live k => hlive h.1]
    rfl

/-! ### Equal amounts -/

theorem paddedWidth_of_left (hleft : p.left = 0) : p.paddedWidth = p.width := by
  unfold paddedWidth
  omega

theorem paddedHeight_of_top (htop : p.top = 0) : p.paddedHeight = p.height := by
  unfold paddedHeight
  omega

/-- Without a padding of the cells, a row is one piece. -/
theorem index_of_left (hleft : p.left = 0) (hk : k < p.total) :
    p.index k =
      if p.top ≤ p.row k ∧ p.row k < p.top + p.height then
        some (k / (p.paddedHeight * p.rowStride) * (p.height * p.rowStride) +
          ((p.row k - p.top) * p.rowStride + k % p.rowStride))
      else none := by
  have hstride : p.rowStride = p.width * p.inner := by
    rw [rowStride, paddedWidth_of_left hleft]
  have hwidth : 0 < p.width := by
    rcases Nat.eq_zero_or_pos p.width with h | h
    · simp [total, hstride, h] at hk
    · exact h
  have hcell : p.left ≤ p.cell k ∧ p.cell k < p.left + p.width := by
    refine ⟨by omega, ?_⟩
    rw [cell, paddedWidth_of_left hleft, hleft, Nat.zero_add]
    exact Nat.mod_lt _ hwidth
  have hpiece : (p.cell k - p.left) * p.inner + k % p.inner = k % p.rowStride := by
    rw [hleft, Nat.sub_zero, cell, paddedWidth_of_left hleft, hstride, Nat.mul_comm p.width, Nat.mod_mul,
      Nat.mul_comm, Nat.add_comm]
  unfold index
  rw [hpiece, ← hstride]
  exact if_congr (and_iff_left hcell) rfl rfl

/-- Without a padding of the rows, only the cells matter. -/
theorem index_of_top (htop : p.top = 0) (hk : k < p.total) :
    p.index k =
      if p.left ≤ p.cell k ∧ p.cell k < p.left + p.width then
        some (k / p.rowStride * (p.width * p.inner) + ((p.cell k - p.left) * p.inner + k % p.inner))
      else none := by
  have hheight : 0 < p.height := by
    rcases Nat.eq_zero_or_pos p.height with h | h
    · simp [total, paddedHeight_of_top htop, h] at hk
    · exact h
  have hrow : p.top ≤ p.row k ∧ p.row k < p.top + p.height := by
    refine ⟨by omega, ?_⟩
    rw [row, paddedHeight_of_top htop, htop, Nat.zero_add]
    exact Nat.mod_lt _ hheight
  have hrows : k / (p.paddedHeight * p.rowStride) * p.height + p.row k = k / p.rowStride := by
    rw [row, paddedHeight_of_top htop, Nat.mul_comm p.height, ← Nat.div_div_eq_div_mul]
    exact Nat.div_add_mod' _ _
  unfold index
  rw [← hrows]
  refine if_congr (and_iff_right hrow) ?_ rfl
  rw [htop, Nat.sub_zero]
  congr 1
  ring

theorem index_of_none (htop : p.top = 0) (hleft : p.left = 0) (hk : k < p.total) : p.index k = some k := by
  have hheight : 0 < p.paddedHeight := by
    rcases Nat.eq_zero_or_pos p.paddedHeight with h | h
    · simp [total, h] at hk
    · exact h
  have hrow : p.row k < p.height := by
    rw [← paddedHeight_of_top htop]
    exact Nat.mod_lt _ hheight
  have hblock : k / (p.paddedHeight * p.rowStride) * p.height + p.row k = k / p.rowStride := by
    rw [row, Nat.mul_comm p.paddedHeight, ← Nat.div_div_eq_div_mul, ← paddedHeight_of_top htop]
    exact Nat.div_add_mod' _ _
  rw [index_of_left hleft hk, htop, if_pos ⟨Nat.zero_le _, by omega⟩, Nat.sub_zero, ← Nat.add_assoc,
    ← Nat.mul_assoc, ← Nat.add_mul, hblock, Nat.div_add_mod']

/-- **Paddings that agree take each element from the same place.** -/
theorem Agree.index_eq (h : p.Agree p') (htop : p.top = p'.top) (hleft : p.left = p'.left)
    (hk : k < p.total) (hk' : k < p'.total) : p.index k = p'.index k := by
  obtain ⟨hrows, hcells⟩ := h
  by_cases hl : p.left = 0
  · by_cases ht : p.top = 0
    · rw [index_of_none ht hl hk, index_of_none (htop ▸ ht) (hleft ▸ hl) hk']
    · obtain ⟨hpadded, hstride⟩ := hrows (by omega)
      have hheight : p.height = p'.height := by
        unfold paddedHeight at hpadded
        omega
      have hrow : p.row k = p'.row k := by simp only [row, hpadded, hstride]
      rw [index_of_left hl hk, index_of_left (hleft ▸ hl) hk', hrow, htop, hheight, hpadded, hstride]
  · obtain ⟨hpadded, hinner⟩ := hcells (by omega)
    have hwidth : p.width = p'.width := by
      unfold paddedWidth at hpadded
      omega
    have hstride : p.rowStride = p'.rowStride := by rw [rowStride, rowStride, hpadded, hinner]
    have hcell : p.cell k = p'.cell k := by simp only [cell, hpadded, hinner]
    by_cases ht : p.top = 0
    · rw [index_of_top ht hk, index_of_top (htop ▸ ht) hk', hcell, hinner, hstride, hwidth, hleft]
    · obtain ⟨hpaddedHeight, -⟩ := hrows (by omega)
      have hheight : p.height = p'.height := by
        unfold paddedHeight at hpaddedHeight
        omega
      have hrow : p.row k = p'.row k := by simp only [row, hpaddedHeight, hstride]
      have hlive : p.Live k ↔ p'.Live k := by
        unfold Live
        rw [hrow, hcell, htop, hleft, hheight, hwidth]
      unfold index
      refine if_congr hlive ?_ rfl
      rw [hrow, hcell, htop, hleft, hheight, hwidth, hinner, hstride, hpaddedHeight]

/-! ### What the filling tells -/

/-- The first element that is none of the filling. -/
def first (p : Plane) : Nat := (p.top * p.paddedWidth + p.left) * p.inner

/-- The elements of a row that are none of the filling. -/
def run (p : Plane) : Nat := p.width * p.inner

/-- Both amounts fill before the first element; those of the cells fill once more a row. -/
theorem first_of_run : p.first = p.top * p.run + (2 * p.top * p.left + p.left) * p.inner := by
  unfold first run paddedWidth
  ring

theorem first_of_left (hleft : p.left = 0) : p.first = p.top * p.rowStride := by
  rw [first, hleft, Nat.add_zero, Nat.mul_assoc, rowStride]

/-- An element by its row, its cell and its place there. -/
theorem live_at {i j q : Nat} (hi : i < p.paddedHeight) (hj : j < p.paddedWidth) (hq : q < p.inner) :
    p.Live ((i * p.paddedWidth + j) * p.inner + q) ↔
      (p.top ≤ i ∧ i < p.top + p.height) ∧ (p.left ≤ j ∧ j < p.left + p.width) := by
  have hcells : ((i * p.paddedWidth + j) * p.inner + q) / p.inner = i * p.paddedWidth + j := by
    rw [Nat.mul_comm, Nat.mul_add_div (by omega), Nat.div_eq_of_lt hq, Nat.add_zero]
  have hcell : p.cell ((i * p.paddedWidth + j) * p.inner + q) = j := by
    rw [cell, hcells, Nat.mul_add_mod', Nat.mod_eq_of_lt hj]
  have hrow : p.row ((i * p.paddedWidth + j) * p.inner + q) = i := by
    rw [row, rowStride, Nat.mul_comm p.paddedWidth, ← Nat.div_div_eq_div_mul, hcells,
      Nat.mul_comm i, Nat.mul_add_div (by omega), Nat.div_eq_of_lt hj, Nat.add_zero, Nat.mod_eq_of_lt hi]
  unfold Live
  rw [hrow, hcell]

/-- The parts of a padding whose source has elements. -/
structure Filled (p : Plane) : Prop where
  outer : 0 < p.outer
  height : 0 < p.height
  width : 0 < p.width
  inner : 0 < p.inner

theorem filled_of_count (h : 0 < p.count) : p.Filled := by
  unfold count at h
  have hrest := Nat.pos_of_mul_pos_left h
  have hrow := Nat.pos_of_mul_pos_left hrest
  exact ⟨Nat.pos_of_mul_pos_right h, Nat.pos_of_mul_pos_right hrest, Nat.pos_of_mul_pos_right hrow,
    Nat.pos_of_mul_pos_left hrow⟩

theorem lt_block {i j q : Nat} (hi : i < p.paddedHeight) (hj : j < p.paddedWidth) (hq : q < p.inner) :
    (i * p.paddedWidth + j) * p.inner + q < p.paddedHeight * p.rowStride := by
  have hcell : (i * p.paddedWidth + j) * p.inner + q < (i * p.paddedWidth + j + 1) * p.inner := by
    rw [Nat.add_mul _ 1, Nat.one_mul]
    exact Nat.add_lt_add_left hq _
  have hrow : i * p.paddedWidth + j + 1 ≤ (i + 1) * p.paddedWidth := by
    rw [Nat.add_mul, Nat.one_mul]
    exact Nat.add_le_add_left hj _
  calc (i * p.paddedWidth + j) * p.inner + q < (i + 1) * p.paddedWidth * p.inner :=
        hcell.trans_le (Nat.mul_le_mul_right _ hrow)
    _ = (i + 1) * p.rowStride := Nat.mul_assoc _ _ _
    _ ≤ p.paddedHeight * p.rowStride := Nat.mul_le_mul_right _ hi

/-- An element lies in its row, in its cell. -/
theorem place (hk : k < p.paddedHeight * p.rowStride) :
    (p.row k * p.paddedWidth + p.cell k) * p.inner + k % p.inner = k := by
  have hrow : p.row k = k / p.inner / p.paddedWidth := by
    rw [row, Nat.div_div_eq_div_mul, Nat.mul_comm p.inner]
    exact Nat.mod_eq_of_lt (Nat.div_lt_of_lt_mul (by rwa [Nat.mul_comm]))
  rw [hrow, cell, Nat.div_add_mod', Nat.div_add_mod']

namespace Filled

theorem lt_total (h : p.Filled) (hk : k < p.paddedHeight * p.rowStride) : k < p.total :=
  hk.trans_le (Nat.le_mul_of_pos_left _ h.outer)

theorem top_lt (h : p.Filled) : p.top < p.paddedHeight := by
  have hheight := h.height
  unfold paddedHeight
  omega

theorem run_live (h : p.Filled) {m : Nat} (hm : m < p.run) :
    p.first + m < p.total ∧ p.Live (p.first + m) := by
  have hcell : m / p.inner < p.width := (Nat.div_lt_iff_lt_mul h.inner).mpr hm
  have hwidth : p.left + m / p.inner < p.paddedWidth := by
    unfold paddedWidth
    omega
  have hplace : p.first + m = (p.top * p.paddedWidth + (p.left + m / p.inner)) * p.inner + m % p.inner := by
    rw [← Nat.add_assoc, Nat.add_mul _ (m / p.inner), Nat.add_assoc, Nat.div_add_mod']
    rfl
  rw [hplace]
  have hheight := h.height
  refine ⟨h.lt_total (lt_block h.top_lt hwidth (Nat.mod_lt _ h.inner)), ?_⟩
  rw [live_at h.top_lt hwidth (Nat.mod_lt _ h.inner)]
  exact ⟨⟨le_rfl, by omega⟩, Nat.le_add_right _ _, Nat.add_lt_add_left hcell _⟩

theorem first_le (h : p.Filled) (hlive : p.Live k) : p.first ≤ k := by
  by_cases hk : k < p.paddedHeight * p.rowStride
  · obtain ⟨⟨htop, -⟩, hleft, -⟩ := hlive
    rw [← place hk]
    refine (Nat.mul_le_mul_right _ ?_).trans (Nat.le_add_right _ _)
    exact Nat.add_le_add (Nat.mul_le_mul_right _ htop) hleft
  · have hleft : p.left < p.paddedWidth := by
      have hwidth := h.width
      unfold paddedWidth
      omega
    have hfirst : p.first + 0 < p.paddedHeight * p.rowStride := lt_block h.top_lt hleft h.inner
    omega

/-- A row that is padded ends in filling. -/
theorem run_ends (h : p.Filled) (hleft : 0 < p.left) :
    p.first + p.run < p.total ∧ ¬ p.Live (p.first + p.run) := by
  have hwidth : p.left + p.width < p.paddedWidth := by
    unfold paddedWidth
    omega
  have hplace : p.first + p.run = (p.top * p.paddedWidth + (p.left + p.width)) * p.inner + 0 := by
    unfold first run
    ring
  rw [hplace]
  refine ⟨h.lt_total (lt_block h.top_lt hwidth h.inner), ?_⟩
  rw [live_at h.top_lt hwidth h.inner]
  omega

end Filled

section Agreement

variable (hfilled : p.Filled) (hfilled' : p'.Filled) (htotal : p.total = p'.total)
variable (hlive : ∀ k < p.total, p.Live k ↔ p'.Live k)
include hfilled hfilled' htotal hlive

theorem first_eq : p.first = p'.first := by
  obtain ⟨hlt, hfirst⟩ := hfilled.run_live (m := 0) (Nat.mul_pos hfilled.width hfilled.inner)
  obtain ⟨hlt', hfirst'⟩ := hfilled'.run_live (m := 0) (Nat.mul_pos hfilled'.width hfilled'.inner)
  apply Nat.le_antisymm
  · exact hfilled.first_le ((hlive _ (htotal ▸ hlt')).mpr hfirst')
  · exact hfilled'.first_le ((hlive _ hlt).mp hfirst)

/-- The first padded row of the one ends no earlier than that of the other. -/
theorem run_le (hleft : 0 < p.left) : p'.run ≤ p.run := by
  by_contra hlonger
  obtain ⟨hlt, hends⟩ := hfilled.run_ends hleft
  obtain ⟨-, hruns⟩ := hfilled'.run_live (m := p.run) (by omega)
  rw [← first_eq hfilled hfilled' htotal hlive] at hruns
  exact hends ((hlive _ hlt).mpr hruns)

end Agreement

/-- Rows of one stride and one run, padded by as much, are as many in a block. -/
theorem height_eq (htop : p.top = p'.top) (hpos : 0 < p.top) (hfilled' : p'.Filled)
    (hcount : p.count = p'.count) (htotal : p.total = p'.total) (hstride : p.rowStride = p'.rowStride)
    (hrun : p.run = p'.run) : p.height = p'.height := by
  have hrun_pos : 0 < p'.run := Nat.mul_pos hfilled'.width hfilled'.inner
  have hstride_pos : 0 < p'.rowStride := by
    have hwidth : 0 < p'.paddedWidth := Nat.lt_of_lt_of_le hfilled'.width (Nat.le_add_right _ _)
    exact Nat.mul_pos hwidth hfilled'.inner
  have hsource : p.outer * p.height = p'.outer * p'.height := by
    refine Nat.eq_of_mul_eq_mul_right hrun_pos ?_
    calc p.outer * p.height * p'.run = p.count := by rw [← hrun, Nat.mul_assoc, run, count]
      _ = p'.outer * p'.height * p'.run := by rw [hcount, Nat.mul_assoc, run, count]
  have hpadded : p.outer * (p.height + 2 * p.top) = p'.outer * (p'.height + 2 * p.top) := by
    refine Nat.eq_of_mul_eq_mul_right hstride_pos ?_
    rw [Nat.mul_assoc, Nat.mul_assoc, ← hstride]
    unfold total paddedHeight at htotal
    rwa [← hstride, ← htop] at htotal
  have houter : p.outer = p'.outer := by
    rw [Nat.mul_add, Nat.mul_add, hsource] at hpadded
    exact Nat.eq_of_mul_eq_mul_right (by omega) (Nat.add_left_cancel hpadded)
  rw [houter] at hsource
  exact Nat.eq_of_mul_eq_mul_left hfilled'.outer hsource

/-- **Paddings by the same amounts that fill the same elements agree on the axes they pad.** -/
theorem agree_of_live (htop : p.top = p'.top) (hleft : p.left = p'.left) (hfilled : p.Filled)
    (hfilled' : p'.Filled) (hcount : p.count = p'.count) (htotal : p.total = p'.total)
    (hlive : ∀ k < p.total, p.Live k ↔ p'.Live k) : p.Agree p' := by
  have hfirst := first_eq hfilled hfilled' htotal hlive
  have hcells : 0 < p.left → p.width = p'.width ∧ p.inner = p'.inner := by
    intro hpos
    have hrun : p.run = p'.run :=
      Nat.le_antisymm
        (run_le hfilled' hfilled htotal.symm (fun k hk => (hlive k (htotal ▸ hk)).symm) (hleft ▸ hpos))
        (run_le hfilled hfilled' htotal hlive hpos)
    have hinner : p.inner = p'.inner := by
      rw [first_of_run, first_of_run, hrun, ← htop, ← hleft] at hfirst
      exact Nat.eq_of_mul_eq_mul_left (by omega) (Nat.add_left_cancel hfirst)
    refine ⟨?_, hinner⟩
    unfold run at hrun
    rw [hinner] at hrun
    exact Nat.eq_of_mul_eq_mul_right hfilled'.inner hrun
  have hrows : 0 < p.top → p.rowStride = p'.rowStride := by
    intro hpos
    by_cases hzero : p.left = 0
    · rw [first_of_left hzero, first_of_left (hleft ▸ hzero), ← htop] at hfirst
      exact Nat.eq_of_mul_eq_mul_left hpos hfirst
    · obtain ⟨hwidth, hinner⟩ := hcells (by omega)
      simp only [rowStride, paddedWidth, hwidth, hinner, hleft]
  refine ⟨fun hpos => ⟨?_, hrows hpos⟩, fun hpos => ?_⟩
  · have hrun : p.run = p'.run := by
      by_cases hzero : p.left = 0
      · have hstride := hrows hpos
        rwa [rowStride, rowStride, paddedWidth_of_left hzero, paddedWidth_of_left (hleft ▸ hzero)] at hstride
      · obtain ⟨hwidth, hinner⟩ := hcells (by omega)
        rw [run, run, hwidth, hinner]
    have hheight := height_eq htop hpos hfilled' hcount htotal (hrows hpos) hrun
    rw [paddedHeight, paddedHeight, hheight, htop]
  · obtain ⟨hwidth, hinner⟩ := hcells hpos
    exact ⟨by rw [paddedWidth, paddedWidth, hwidth, hleft], hinner⟩

/-! ### Whole paddings -/

section Elements

variable {α : Type}

/-- The padded elements of a plane. -/
def pad (p : Plane) (elements : List α) (fill : α) : List α :=
  (List.range p.total).map fun k => ((p.index k).bind fun j => elements[j]?).getD fill

theorem isSome_index : (p.index k).isSome = true ↔ p.Live k := by
  unfold index
  split_ifs with hlive
  · simp [hlive]
  · simp [hlive]

theorem index_lt {j : Nat} (hk : k < p.total) (h : p.index k = some j) : j < p.count := by
  have hsource : sourcePlace ([p.outer].map Axis.kept ++
      Axis.even p.height p.top :: Axis.even p.width p.left :: [p.inner].map Axis.kept) k = p.index k :=
    sourcePlace_eq List.prod_singleton List.prod_singleton hk
  have hcount : sourceCount ([p.outer].map Axis.kept ++
      Axis.even p.height p.top :: Axis.even p.width p.left :: [p.inner].map Axis.kept) = p.count := by
    simp [Axis.kept, Axis.even, count]
  rw [← hcount]
  refine sourcePlace_lt ?_ (hsource.trans h)
  simpa [total, rowStride, paddedHeight, paddedWidth] using hk

/-- Padding a constant shows where the filling is. -/
theorem pad_replicate (other fill : α) (hk : k < p.total) :
    (p.pad (List.replicate p.count other) fill)[k]? = some (if p.Live k then other else fill) := by
  unfold pad
  rw [List.getElem?_map, List.getElem?_range hk, Option.map_some]
  congr 1
  by_cases hlive : p.Live k
  · obtain ⟨j, hj⟩ := Option.isSome_iff_exists.mp (isSome_index.mpr hlive)
    rw [if_pos hlive, hj, Option.bind_some, List.getElem?_replicate, if_pos (index_lt hk hj)]
    rfl
  · rw [if_neg hlive, Option.not_isSome_iff_eq_none.mp (isSome_index.not.mpr hlive)]
    rfl

/-- **Two paddings of the same elements by the same amounts are the same, whatever the elements, exactly when
the planes agree or there are no elements.** -/
theorem pad_eq_iff (hcount : p.count = p'.count) (htotal : p.total = p'.total) (htop : p.top = p'.top)
    (hleft : p.left = p'.left) {other fill : α} (hother : other ≠ fill) :
    (∀ elements : List α, elements.length = p.count → p.pad elements fill = p'.pad elements fill) ↔
      (0 < p.count → p.Agree p') := by
  constructor
  · intro hsame hpos
    refine agree_of_live htop hleft (filled_of_count hpos) (filled_of_count (hcount ▸ hpos)) hcount htotal
      fun k hk => ?_
    have hpad := congrArg (fun l => l[k]?) (hsame (List.replicate p.count other) List.length_replicate)
    rw [pad_replicate other fill hk, hcount, pad_replicate other fill (htotal ▸ hk)] at hpad
    by_cases hlive : p.Live k
    · by_cases hlive' : p'.Live k
      · exact iff_of_true hlive hlive'
      · rw [if_pos hlive, if_neg hlive'] at hpad
        exact absurd (Option.some.inj hpad) hother
    · by_cases hlive' : p'.Live k
      · rw [if_neg hlive, if_pos hlive'] at hpad
        exact absurd (Option.some.inj hpad).symm hother
      · exact iff_of_false hlive hlive'
  · intro hagree elements hlength
    unfold pad
    rw [← htotal]
    refine List.map_congr_left fun k hk => ?_
    have hk := List.mem_range.mp hk
    rcases Nat.eq_zero_or_pos p.count with hzero | hpos
    · obtain rfl : elements = [] := List.eq_nil_of_length_eq_zero (hlength.trans hzero)
      simp
    · rw [(hagree hpos).index_eq htop hleft hk (htotal ▸ hk)]

end Elements

end Plane

/-! ### Two axes of a shape -/

/-- No amounts but those of an axis and the next one. -/
def spatialAmounts (rank axis : Nat) (top left : Int) : List Int :=
  List.replicate axis 0 ++ top :: left :: List.replicate (rank - axis - 2) 0

/-- The elements between one place on an axis and the next. -/
def strideAt (shape : List Nat) (axis : Nat) : Nat := (shape.drop (axis + 1)).prod

/-- The plane of a shape at an axis and the next one. -/
def planeOf (shape : List Nat) (axis top left : Nat) : Plane where
  outer := (shape.take axis).prod
  height := shape.getD axis 0
  width := shape.getD (axis + 1) 0
  inner := (shape.drop (axis + 2)).prod
  top := top
  left := left

section Spatial

variable {shape : List Nat} {axis top left : Nat}

theorem shape_split (h : axis + 2 ≤ shape.length) :
    ∃ pre n m post, shape = pre ++ n :: m :: post ∧ pre.length = axis := by
  refine ⟨shape.take axis, shape[axis], shape[axis + 1], shape.drop (axis + 2), ?_, ?_⟩
  · rw [List.getElem_cons_drop, List.getElem_cons_drop, List.take_append_drop]
  · rw [List.length_take]
    omega

theorem axesOf_kept_append (pre : List Nat) {lows highs : List Int} {rest : List Nat} :
    axesOf (List.replicate pre.length 0 ++ lows) (pre ++ rest) (List.replicate pre.length 0 ++ highs) =
      pre.map Axis.kept ++ axesOf lows rest highs := by
  induction pre with
  | nil => rfl
  | cons n pre ih => exact congrArg (Axis.kept n :: ·) ih

theorem axesOf_spatial (h : axis + 2 ≤ shape.length) :
    axesOf (spatialAmounts shape.length axis top left) shape
        (spatialAmounts shape.length axis top left) =
      (shape.take axis).map Axis.kept ++ Axis.even (shape.getD axis 0) top ::
        Axis.even (shape.getD (axis + 1) 0) left :: (shape.drop (axis + 2)).map Axis.kept := by
  obtain ⟨pre, n, m, post, rfl, rfl⟩ := shape_split h
  have hpost : axesOf (List.replicate post.length 0) post (List.replicate post.length 0) =
      post.map Axis.kept := by
    have hall : axesOf (List.replicate post.length 0 ++ []) (post ++ [])
        (List.replicate post.length 0 ++ []) = post.map Axis.kept ++ axesOf [] [] [] :=
      axesOf_kept_append post
    simpa [axesOf] using hall
  have hrank : (pre ++ n :: m :: post).length - pre.length - 2 = post.length := by
    simp only [List.length_append, List.length_cons]
    omega
  have hdrop : (pre ++ n :: m :: post).drop (pre.length + 2) = post := by
    rw [List.drop_append]
    simp
  unfold spatialAmounts
  rw [hrank, axesOf_kept_append, hdrop, List.take_left]
  simp only [axesOf, hpost]
  simp [Axis.even]

/-- The shape of a padding of two adjacent axes. -/
theorem padded_spatial (h : axis + 2 ≤ shape.length) :
    (axesOf (spatialAmounts shape.length axis top left) shape
        (spatialAmounts shape.length axis top left)).map Axis.padded =
      shape.take axis ++ (shape.getD axis 0 + 2 * top) :: (shape.getD (axis + 1) 0 + 2 * left) ::
        shape.drop (axis + 2) := by
  have hkept : Axis.padded ∘ Axis.kept = id := funext Axis.padded_kept
  rw [axesOf_spatial h, List.map_append, List.map_cons, List.map_cons, List.map_map, List.map_map, hkept,
    List.map_id, List.map_id, Axis.padded_even, Axis.padded_even]

theorem planeOf_count (h : axis + 2 ≤ shape.length) : (planeOf shape axis top left).count = shape.prod := by
  obtain ⟨pre, n, m, post, rfl, rfl⟩ := shape_split h
  simp [planeOf, Plane.count]

section Padded

/-- The padded axes of a shape are those of its plane. -/
theorem planeOf_padded (h : axis + 2 ≤ shape.length) {padded : List Nat}
    (hpadded : (axesOf (spatialAmounts shape.length axis top left) shape
      (spatialAmounts shape.length axis top left)).map Axis.padded = padded) :
    (planeOf shape axis top left).total = padded.prod ∧
      ((planeOf shape axis top left).paddedHeight = padded.getD axis 0 ∧
        (planeOf shape axis top left).rowStride = strideAt padded axis) ∧
      (planeOf shape axis top left).paddedWidth = padded.getD (axis + 1) 0 ∧
        (planeOf shape axis top left).inner = strideAt padded (axis + 1) := by
  rw [padded_spatial h] at hpadded
  subst hpadded
  obtain ⟨pre, n, m, post, rfl, rfl⟩ := shape_split h
  simp [planeOf, Plane.total, Plane.paddedHeight, Plane.paddedWidth, Plane.rowStride, strideAt,
    Nat.add_assoc, List.drop_length_add_append]

end Padded

theorem length_spatialAmounts {rank : Nat} (h : axis + 2 ≤ rank) (top left : Int) :
    (spatialAmounts rank axis top left).length = rank := by
  simp [spatialAmounts]
  omega

theorem getD_spatialAmounts (rank axis : Nat) (top left : Int) (dim : Nat) :
    (spatialAmounts rank axis top left).getD dim 0 =
      if dim = axis then top else if dim = axis + 1 then left else 0 := by
  unfold spatialAmounts
  rcases Nat.lt_trichotomy dim axis with hlt | rfl | hgt
  · simp [List.getElem?_append_left, hlt, hlt.ne, show dim ≠ axis + 1 by omega]
  · simp
  · obtain ⟨d, rfl⟩ : ∃ d, dim = axis + 1 + d := ⟨dim - axis - 1, by omega⟩
    cases d with
    | zero => simp
    | succ d =>
      have hplace : axis + 1 + (d + 1) - axis = d + 2 := by omega
      rw [List.getD_eq_getElem?_getD, List.getElem?_append_right (by simp; omega), List.length_replicate,
        hplace, List.getElem?_cons_succ, List.getElem?_cons_succ, List.getElem?_replicate,
        if_neg (show ¬ axis + 1 + (d + 1) = axis by omega),
        if_neg (show ¬ axis + 1 + (d + 1) = axis + 1 by omega)]
      split_ifs <;> rfl

/-- A padding of two adjacent axes is one of their plane. -/
theorem Tensor.pad_spatial {α : Type} {x : Tensor α} (h : axis + 2 ≤ x.shape.length) (fill : α) :
    (x.pad (spatialAmounts x.shape.length axis top left) (spatialAmounts x.shape.length axis top left)
      fill).elements = (planeOf x.shape axis top left).pad x.elements fill := by
  have htotal : paddedCount (axesOf (spatialAmounts x.shape.length axis top left) x.shape
      (spatialAmounts x.shape.length axis top left)) = (planeOf x.shape axis top left).total := by
    rw [paddedCount, padded_spatial h, List.prod_append, List.prod_cons, List.prod_cons]
    rfl
  unfold Tensor.pad Plane.pad
  dsimp only
  rw [htotal]
  refine List.map_congr_left fun k hk => ?_
  rw [axesOf_spatial h, ← Plane.sourcePlace_eq rfl rfl (List.mem_range.mp hk)]
  rfl

end Spatial

end IreeRocket.RowMajor
