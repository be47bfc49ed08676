import Mathlib.Algebra.BigOperators.Group.Finset.Basic
import Mathlib.Data.Int.Order.Basic
import Mathlib.Tactic.Ring
import Mathlib.Tactic.LinearCombination

/-!
# Strided windows and zero-padded convolution

One axis of a strided, zero-padded convolution has an extent, a stride, a leading padding and a
number of taps. A `Window` is a range of its outputs together with a range of its inputs and a
leading padding of its own; its fields are exactly what makes the range of inputs enough to compute
the range of outputs. Tap `t` of output `o` reads the position `o * stride + t - pad` of the whole
axis, and `(o - outFirst) * stride + t - lead` of the window: the second is the first less `inFirst`
(`Window.local_eq`), and whether the axis is hit at all is the same question on either side
(`Window.tap_outside`, `Window.tap_inside`).

A convolution computed from two windows, one an axis, is therefore the convolution of the whole
image (`convolve_window`), over any additive monoid with a multiplication and for any choice of
the input channels an output channel reads.
-/

namespace IreeRocket.Strided

/-- A range of outputs of one axis, the range of inputs it is computed from and the padding that
stands before that range. -/
structure Window (extent stride pad taps : Nat) where
  outFirst : Nat
  outCount : Nat
  inFirst : Nat
  inCount : Nat
  lead : Nat
  /-- The first tap of the window is the first tap of its first output. -/
  aligned : outFirst * stride + lead = inFirst + pad
  /-- Padding is left only where the window begins at the edge. -/
  lead_edge : lead = 0 ∨ inFirst = 0
  nonempty : 0 < inCount
  inside : inFirst + inCount ≤ extent
  /-- The window ends behind its last tap or at the end of the axis. -/
  reach : ∀ o t, o < outFirst + outCount → t < taps →
    o * stride + t < inFirst + inCount + pad ∨ inFirst + inCount = extent

namespace Window

variable {extent stride pad taps : Nat} (w : Window extent stride pad taps) {o t : Nat}

/-- The position of the whole axis that tap `t` of output `o` reads. -/
def globalTap (stride pad o t : Nat) : Int :=
  (o : Int) * stride + t - pad

/-- The same tap counted from the window's own first input. -/
def localTap (o t : Nat) : Int :=
  ((o : Int) - w.outFirst) * stride + t - w.lead

theorem local_eq (o t : Nat) : w.localTap o t = globalTap stride pad o t - w.inFirst := by
  have h : (w.outFirst : Int) * stride + w.lead = w.inFirst + pad := by exact_mod_cast w.aligned
  unfold localTap globalTap
  linear_combination -h

/-- A tap the whole axis pads is a tap the window pads. -/
theorem tap_outside (h : globalTap stride pad o t < 0 ∨ (extent : Int) ≤ globalTap stride pad o t) :
    w.localTap o t < 0 ∨ (w.inCount : Int) ≤ w.localTap o t := by
  have hin := w.inside
  rw [w.local_eq]
  omega

/-- A tap inside the axis falls inside the window. -/
theorem tap_inside (hfirst : w.outFirst ≤ o) (hlast : o < w.outFirst + w.outCount) (ht : t < taps)
    (h0 : 0 ≤ globalTap stride pad o t) (hn : globalTap stride pad o t < extent) :
    (w.inFirst : Int) ≤ globalTap stride pad o t ∧
      globalTap stride pad o t < w.inFirst + w.inCount := by
  have hstart : w.outFirst * stride ≤ o * stride := Nat.mul_le_mul_right _ hfirst
  have haligned := w.aligned
  have hcast : globalTap stride pad o t = ((o * stride : Nat) : Int) + t - pad := by
    unfold globalTap
    push_cast
    ring
  rw [hcast] at h0 hn ⊢
  refine ⟨?_, ?_⟩
  · rcases w.lead_edge with h | h <;> omega
  · rcases w.reach o t hlast ht with h | h <;> omega

end Window

open Finset

variable {R : Type*} [AddCommMonoid R] [Mul R]

/-- The image read at integer coordinates, zero outside its extents. -/
def padded (height width : Nat) (x : Nat → Nat → Nat → R) (r c : Int) (ch : Nat) : R :=
  if 0 ≤ r ∧ r < height ∧ 0 ≤ c ∧ c < width then x r.toNat c.toNat ch else 0

/-- The geometry of a convolution: image extents, stride, leading paddings, kernel extents and the
input channels each output channel reads. -/
structure Geometry where
  height : Nat
  width : Nat
  stride : Nat
  padTop : Nat
  padLeft : Nat
  kernelHeight : Nat
  kernelWidth : Nat
  channels : Nat → Finset Nat

/-- The zero-padded strided convolution of `x` with the filter `f`, indexed by output channel,
kernel row, kernel column and input channel. -/
def convolve (g : Geometry) (x : Nat → Nat → Nat → R) (f : Nat → Nat → Nat → Nat → R)
    (oc r c : Nat) : R :=
  ∑ ky ∈ range g.kernelHeight, ∑ kx ∈ range g.kernelWidth, ∑ ch ∈ g.channels oc,
    padded g.height g.width x ((r : Int) * g.stride + ky - g.padTop)
      ((c : Int) * g.stride + kx - g.padLeft) ch * f oc ky kx ch

section Tiled

variable {g : Geometry} (rows : Window g.height g.stride g.padTop g.kernelHeight)
variable (cols : Window g.width g.stride g.padLeft g.kernelWidth)

/-- The convolution a pair of windows is left with: its own extents and leading paddings. -/
def tileGeometry : Geometry :=
  { g with height := rows.inCount, width := cols.inCount, padTop := rows.lead, padLeft := cols.lead }

/-- The part of the image that a pair of windows holds. -/
def tileInput (x : Nat → Nat → Nat → R) : Nat → Nat → Nat → R :=
  fun r c ch => x (rows.inFirst + r) (cols.inFirst + c) ch

omit [Mul R] in
/-- One tap of the tile reads what the same tap of the image reads. -/
theorem padded_window (x : Nat → Nat → Nat → R) {r c ky kx : Nat} (ch : Nat)
    (hr : rows.outFirst ≤ r) (hr' : r < rows.outFirst + rows.outCount)
    (hc : cols.outFirst ≤ c) (hc' : c < cols.outFirst + cols.outCount)
    (hky : ky < g.kernelHeight) (hkx : kx < g.kernelWidth) :
    padded rows.inCount cols.inCount (tileInput rows cols x) (rows.localTap r ky)
        (cols.localTap c kx) ch =
      padded g.height g.width x (Window.globalTap g.stride g.padTop r ky)
        (Window.globalTap g.stride g.padLeft c kx) ch := by
  unfold padded
  have hrow := rows.local_eq r ky
  have hcol := cols.local_eq c kx
  by_cases hin : 0 ≤ Window.globalTap g.stride g.padTop r ky ∧
      Window.globalTap g.stride g.padTop r ky < g.height ∧
      0 ≤ Window.globalTap g.stride g.padLeft c kx ∧
      Window.globalTap g.stride g.padLeft c kx < g.width
  · obtain ⟨h1, h2, h3, h4⟩ := hin
    have hrows := rows.tap_inside hr hr' hky h1 h2
    have hcols := cols.tap_inside hc hc' hkx h3 h4
    rw [if_pos (by omega), if_pos ⟨h1, h2, h3, h4⟩]
    unfold tileInput
    congr 1 <;> omega
  · rw [if_neg hin, if_neg]
    rintro ⟨h1, h2, h3, h4⟩
    have hrows := rows.tap_outside (o := r) (t := ky)
    have hcols := cols.tap_outside (o := c) (t := kx)
    exact hin (by omega)

/-- **A tile is a window of the whole.** The convolution of the tile's own input, under the tile's
own paddings and zero past its end, is the whole convolution at every output of the tile. -/
theorem convolve_window (x : Nat → Nat → Nat → R) (f : Nat → Nat → Nat → Nat → R) (oc : Nat)
    {r c : Nat} (hr : rows.outFirst ≤ r) (hr' : r < rows.outFirst + rows.outCount)
    (hc : cols.outFirst ≤ c) (hc' : c < cols.outFirst + cols.outCount) :
    convolve (tileGeometry rows cols) (tileInput rows cols x) f oc (r - rows.outFirst)
      (c - cols.outFirst) = convolve g x f oc r c := by
  unfold convolve
  refine sum_congr rfl fun ky hky => sum_congr rfl fun kx hkx => sum_congr rfl fun ch _ => ?_
  have key := padded_window rows cols x ch hr hr' hc hc' (mem_range.mp hky) (mem_range.mp hkx)
  unfold Window.localTap Window.globalTap at key
  rw [← key, Nat.cast_sub hr, Nat.cast_sub hc]
  rfl

end Tiled

/-! ### Placing tiles in one image -/

section Place

variable {τ : Type*}

/-- The image after every tile has written the points it holds, in the order of the list. -/
def place (holds : τ → Nat → Nat → Bool) (value : τ → Nat → Nat → Nat → R) (tiles : List τ)
    (blank : Nat → Nat → Nat → R) : Nat → Nat → Nat → R :=
  tiles.foldl (fun img t => fun oc r c => if holds t r c then value t oc r c else img oc r c) blank

omit [AddCommMonoid R] [Mul R] in
/-- A point no tile holds keeps its value; a point some tile holds has the common value. -/
theorem place_eq {holds : τ → Nat → Nat → Bool} {value : τ → Nat → Nat → Nat → R} {tiles : List τ}
    {blank : Nat → Nat → Nat → R} {oc r c : Nat} {v : R}
    (hvalue : ∀ t ∈ tiles, holds t r c = true → value t oc r c = v)
    (hsome : (∃ t ∈ tiles, holds t r c = true) ∨ blank oc r c = v) :
    place holds value tiles blank oc r c = v := by
  unfold place
  induction tiles generalizing blank with
  | nil => simpa using hsome
  | cons t tiles ih =>
    rw [List.foldl_cons]
    refine ih (fun u hu => hvalue u (by simp [hu])) ?_
    by_cases ht : holds t r c = true
    · exact .inr (by rw [if_pos ht]; exact hvalue t (by simp) ht)
    · rw [if_neg ht]
      rcases hsome with ⟨u, hu, hholds⟩ | hblank
      · rcases List.mem_cons.mp hu with rfl | hu
        · exact absurd hholds ht
        · exact .inl ⟨u, hu, hholds⟩
      · exact .inr hblank

end Place

end IreeRocket.Strided
