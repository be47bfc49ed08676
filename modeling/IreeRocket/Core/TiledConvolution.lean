import IreeRocket.Core.Partition
import IreeRocket.Lib.Convolution

/-!
# Tiled convolution is whole convolution

A tile of a plan carries two windows, one an axis (`Tile.rowWindow`, `ColumnTile.columnWindow`): its
input rows and columns hold every tap its outputs need, and what leading padding the tile keeps puts
each of them where the whole image has it. The convolutions of the tiles' own inputs, placed at the
tiles' rectangles, are the convolution of the image.
-/

namespace IreeRocket.Conv

open Strided

/-- The input range the planner computes for an output range of one axis is a window of it. -/
def axisWindow {extent stride pad taps outFirst outCount inCount : Nat} (hextent : 0 < extent)
    (hpad : pad < taps) (hcount : 0 < outCount)
    (hfit : (outFirst + outCount - 1) * stride + taps ≤ extent + 2 * pad)
    (hin : inCount = extent - (outFirst * stride - pad) ∨
      inCount = min (max (min ((outFirst + outCount - 1) * stride + taps - 1 - pad) (extent - 1) -
        (outFirst * stride - pad) + 1) (outCount * stride)) (extent - (outFirst * stride - pad))) :
    Window extent stride pad taps where
  outFirst := outFirst
  outCount := outCount
  inFirst := outFirst * stride - pad
  inCount := inCount
  lead := pad - outFirst * stride
  aligned := by omega
  lead_edge := by omega
  nonempty := by
    have hmono : outFirst * stride ≤ (outFirst + outCount - 1) * stride :=
      Nat.mul_le_mul_right _ (by omega)
    rcases hin with rfl | rfl <;> omega
  inside := by
    have hmono : outFirst * stride ≤ (outFirst + outCount - 1) * stride :=
      Nat.mul_le_mul_right _ (by omega)
    rcases hin with rfl | rfl <;> omega
  reach := by
    intro o t ho ht
    have hmono : o * stride ≤ (outFirst + outCount - 1) * stride :=
      Nat.mul_le_mul_right _ (by omega)
    have hfirst : outFirst * stride ≤ (outFirst + outCount - 1) * stride :=
      Nat.mul_le_mul_right _ (by omega)
    rcases hin with rfl | rfl <;> omega

/-- The convolution a shape and a kernel describe. -/
def Shape.convGeometry (s : Shape) (kernels : Kernels) : Geometry where
  height := s.height
  width := s.width
  stride := s.stride
  padTop := (s.kernelProgramming kernels).padTop
  padLeft := (s.kernelProgramming kernels).padLeft
  kernelHeight := kernels.1
  kernelWidth := kernels.2
  channels := fun oc => if s.depthwise then {oc} else Finset.range s.inChannels

/-- The convolution a tile is programmed with: its own input extents and leading paddings. -/
def Tile2D.convGeometry (t : Tile2D) (s : Shape) (kernels : Kernels) : Geometry :=
  { s.convGeometry kernels with
    height := t.rows.inRows, width := t.columns.inCols
    padTop := t.rows.padTop, padLeft := t.columns.padLeft }

/-- The tile's input window. -/
def Tile2D.input {R : Type*} (t : Tile2D) (x : Nat → Nat → Nat → R) : Nat → Nat → Nat → R :=
  fun r c ch => x (t.rows.inFirst + r) (t.columns.inFirst + c) ch

/-- The value a tile computes for the output pixel `(r, c)` of the whole image. -/
def Tile2D.compute {R : Type*} [AddCommMonoid R] [Mul R] (t : Tile2D) (s : Shape) (kernels : Kernels)
    (x : Nat → Nat → Nat → R) (f : Nat → Nat → Nat → Nat → R) (oc r c : Nat) : R :=
  convolve (t.convGeometry s kernels) (t.input x) f oc (r - t.rows.outFirst)
    (c - t.columns.outFirst)

/-- A tap of the whole axis (`g`) against the same tap of a tile (`l`): outside together, or inside
together at the same place. -/
def TapAgrees (extent inFirst inCount : Nat) (g l : Int) : Prop :=
  ((g < 0 ∨ (extent : Int) ≤ g) → l < 0 ∨ (inCount : Int) ≤ l) ∧
    (0 ≤ g ∧ g < extent → (inFirst : Int) ≤ g ∧ g < inFirst + inCount ∧ g = inFirst + l)

theorem tapAgrees_of_window {extent stride pad taps : Nat} (w : Window extent stride pad taps)
    {o t : Nat} (ho : Segments.Within w.outFirst w.outCount o) (ht : t < taps) :
    TapAgrees extent w.inFirst w.inCount ((o : Int) * stride + t - pad)
      (((o : Int) - w.outFirst) * stride + t - w.lead) := by
  have hlocal := w.local_eq o t
  unfold Window.localTap Window.globalTap at hlocal
  refine ⟨w.tap_outside, fun hin => ?_⟩
  obtain ⟨h1, h2⟩ := w.tap_inside ho.1 ho.2 ht hin.1 hin.2
  exact ⟨h1, h2, by omega⟩

section Windows

variable {shape : Shape} {kernels : Kernels} {policy : PlanningPolicy}

/-- The last output of an in-range tile starts inside the padded image. -/
theorem lastRow_fits (hk : KernelFits shape kernels) {a n : Nat} (hn : 0 < n)
    (h : a + n ≤ shape.outputHeight kernels) :
    (a + n - 1) * shape.stride + kernels.1 ≤
      shape.height + 2 * (shape.kernelProgramming kernels).padTop := by
  have := shape.outFirst_mul_stride_le kernels (show a + n - 1 < shape.outputHeight kernels by omega)
  have := hk.height_fits
  omega

theorem lastColumn_fits (hk : KernelFits shape kernels) {a n : Nat} (hn : 0 < n)
    (h : a + n ≤ shape.outputWidth kernels) :
    (a + n - 1) * shape.stride + kernels.2 ≤
      shape.width + 2 * (shape.kernelProgramming kernels).padLeft := by
  have := shape.outFirst_mul_stride_le' kernels (show a + n - 1 < shape.outputWidth kernels by omega)
  have := hk.width_fits
  omega

/-- A row tile is a window of the image's rows. -/
theorem Tile.rowWindow (hs : shape.WellFormed policy) (hk : KernelFits shape kernels) {t : Tile}
    (hbounds : t = Tile.fromBounds shape kernels t.outFirst t.outRows) (hpos : 0 < t.outRows)
    (hle : t.outFirst + t.outRows ≤ shape.outputHeight kernels) :
    ∃ w : Window shape.height shape.stride (shape.kernelProgramming kernels).padTop kernels.1,
      w.outFirst = t.outFirst ∧ w.outCount = t.outRows ∧ w.inFirst = t.inFirst ∧
        w.inCount = t.inRows ∧ w.lead = t.padTop := by
  rw [hbounds]
  exact ⟨axisWindow hs.height_pos hk.padTop_lt hpos (lastRow_fits hk hpos hle) (.inr rfl),
    rfl, rfl, rfl, rfl, rfl⟩

/-- A column tile is a window of the image's columns. -/
theorem ColumnTile.columnWindow (hs : shape.WellFormed policy) (hk : KernelFits shape kernels)
    {c : ColumnTile}
    (hbounds : ColumnTile.fromOutputRange shape kernels c.outFirst c.outCols = .ok c) :
    ∃ w : Window shape.width shape.stride (shape.kernelProgramming kernels).padLeft kernels.2,
      w.outFirst = c.outFirst ∧ w.outCount = c.outCols ∧ w.inFirst = c.inFirst ∧
        w.inCount = c.inCols ∧ w.lead = c.padLeft := by
  obtain ⟨-, -, hpos, hle⟩ := ColumnTile.fromOutputRange_ok hbounds
  have hfit := lastColumn_fits hk hpos hle
  unfold ColumnTile.fromOutputRange at hbounds
  simp only [bind_ok, assertThat_ok, pure_ok, exists_const] at hbounds
  obtain ⟨-, heq⟩ := hbounds
  rw [← heq]
  refine ⟨axisWindow hs.width_pos hk.padLeft_lt hpos hfit ?_, rfl, rfl, rfl, rfl, rfl⟩
  split_ifs
  · exact .inl rfl
  · exact .inr rfl

end Windows

/-- The two windows of a tile of a plan. -/
theorem Planned.windows {policy : PlanningPolicy} {shape : Shape} {kernels : Kernels}
    {plan : ConvPlan} (hs : shape.WellFormed policy) (h : Planned shape kernels plan) {t : Tile2D}
    (ht : t ∈ plan.tiles) :
    (∃ w : Window shape.height shape.stride (shape.kernelProgramming kernels).padTop kernels.1,
      w.outFirst = t.rows.outFirst ∧ w.outCount = t.rows.outRows ∧ w.inFirst = t.rows.inFirst ∧
        w.inCount = t.rows.inRows ∧ w.lead = t.rows.padTop) ∧
    ∃ w : Window shape.width shape.stride (shape.kernelProgramming kernels).padLeft kernels.2,
      w.outFirst = t.columns.outFirst ∧ w.outCount = t.columns.outCols ∧
        w.inFirst = t.columns.inFirst ∧ w.inCount = t.columns.inCols ∧
        w.lead = t.columns.padLeft := by
  obtain ⟨cols, hgrid⟩ := h.grid
  obtain ⟨⟨hpos, hle⟩, -, -⟩ := hgrid.mem_inside ht
  refine ⟨Tile.rowWindow hs h.kernelFits (hgrid.rowBounds t ht) hpos hle, ?_⟩
  obtain ⟨r, c, hc, rfl, -⟩ := hgrid.stacked.mem ht
  exact ColumnTile.columnWindow hs h.kernelFits (hgrid.colBounds c hc)

/-- At its own outputs, a tile computes the convolution of the whole image. -/
theorem Planned.compute_eq {policy : PlanningPolicy} {shape : Shape} {kernels : Kernels}
    {plan : ConvPlan} {R : Type*} [AddCommMonoid R] [Mul R] (hs : shape.WellFormed policy)
    (h : Planned shape kernels plan) {t : Tile2D} (ht : t ∈ plan.tiles)
    (x : Nat → Nat → Nat → R) (f : Nat → Nat → Nat → Nat → R) (oc : Nat) {r c : Nat}
    (hholds : t.Holds r c) :
    t.compute shape kernels x f oc r c = convolve (shape.convGeometry kernels) x f oc r c := by
  obtain ⟨⟨rows, h1, h2, h3, h4, h5⟩, cols, g1, g2, g3, g4, g5⟩ := h.windows hs ht
  obtain ⟨hrow, hcol⟩ := hholds
  have key := convolve_window (g := shape.convGeometry kernels) rows cols x f oc (r := r) (c := c)
    (by rw [h1]; exact hrow.1) (by rw [h1, h2]; exact hrow.2)
    (by rw [g1]; exact hcol.1) (by rw [g1, g2]; exact hcol.2)
  rw [← key]
  unfold Tile2D.compute Tile2D.convGeometry Tile2D.input tileGeometry tileInput
  rw [h1, h3, h4, h5, g1, g3, g4, g5]

/-- The tiles compute a convolution exactly. -/
structure ComputesConvolution (shape : Shape) (kernels : Kernels) (tiles : List Tile2D) : Prop where
  /-- Every input window is nonempty and inside the image. -/
  window : ∀ t ∈ tiles,
    (0 < t.rows.inRows ∧ t.rows.inFirst + t.rows.inRows ≤ shape.height) ∧
    0 < t.columns.inCols ∧ t.columns.inFirst + t.columns.inCols ≤ shape.width
  /-- Every tap of every output of a tile is outside the image and the window together, or inside
  both at the same place. -/
  taps : ∀ t ∈ tiles, ∀ r c, t.Holds r c → ∀ ky < kernels.1, ∀ kx < kernels.2,
    TapAgrees shape.height t.rows.inFirst t.rows.inRows
      ((r : Int) * shape.stride + ky - (shape.kernelProgramming kernels).padTop)
      (((r : Int) - t.rows.outFirst) * shape.stride + ky - t.rows.padTop) ∧
    TapAgrees shape.width t.columns.inFirst t.columns.inCols
      ((c : Int) * shape.stride + kx - (shape.kernelProgramming kernels).padLeft)
      (((c : Int) - t.columns.outFirst) * shape.stride + kx - t.columns.padLeft)
  /-- The tiles' own convolutions, placed at their rectangles, are the zero-padded strided
  convolution of the image, whatever the output held before. -/
  convolution : ∀ (R : Type) [AddCommMonoid R] [Mul R] (x blank : Nat → Nat → Nat → R)
    (f : Nat → Nat → Nat → Nat → R) (oc r c : Nat),
    r < shape.outputHeight kernels → c < shape.outputWidth kernels →
    place (fun t r c => decide (Tile2D.Holds t r c))
        (fun t => Tile2D.compute t shape kernels x f) tiles blank oc r c =
      convolve (shape.convGeometry kernels) x f oc r c

/-- **Tiled convolution equals whole convolution.** For every accepted plan, and for tensors over
any additive monoid with a multiplication. -/
theorem tiled_convolution_eq {policy : PlanningPolicy} {shape : Shape} {kernels : Kernels}
    {plan : ConvPlan} (h : Accepted policy shape kernels plan) :
    ComputesConvolution shape kernels plan.tiles := by
  have hs := h.wellFormed
  have hplan := h.planned
  refine ⟨fun t ht => ?_, fun t ht r c hholds ky hky kx hkx => ?_, ?_⟩
  · obtain ⟨⟨rows, -, -, h3, h4, -⟩, cols, -, -, g3, g4, -⟩ := hplan.windows hs ht
    rw [← h3, ← h4, ← g3, ← g4]
    exact ⟨⟨rows.nonempty, rows.inside⟩, cols.nonempty, cols.inside⟩
  · obtain ⟨⟨rows, h1, h2, h3, h4, h5⟩, cols, g1, g2, g3, g4, g5⟩ := hplan.windows hs ht
    have hrow := tapAgrees_of_window rows (o := r) (t := ky)
      (by rw [h1, h2]; exact hholds.1) hky
    have hcol := tapAgrees_of_window cols (o := c) (t := kx)
      (by rw [g1, g2]; exact hholds.2) hkx
    rw [h1, h3, h4, h5] at hrow
    rw [g1, g3, g4, g5] at hcol
    exact ⟨hrow, hcol⟩
  · intro R _ _ x blank f oc r c hr hc
    obtain ⟨cols, hgrid⟩ := hplan.grid
    have hone := hgrid.countP_holds hr hc
    refine place_eq (fun t ht hholds => ?_) (.inl ?_)
    · exact hplan.compute_eq hs ht x f oc (of_decide_eq_true hholds)
    · exact List.countP_pos_iff.mp (by omega)

theorem tiled_convolution_eq_stem : ComputesConvolution stemShape (3, 3) stemPlan.tiles :=
  tiled_convolution_eq stem_accepted

end IreeRocket.Conv
