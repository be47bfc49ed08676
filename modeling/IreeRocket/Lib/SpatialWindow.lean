import Mathlib.Algebra.BigOperators.Ring.Finset
import Mathlib.Data.Fintype.BigOperators
import Mathlib.Data.Int.Interval
import Mathlib.Tactic.Linarith
import Mathlib.Tactic.Ring

/-!
# Windows over any number of axes

An image has a batch, channels and any number of spatial axes. A convolution reads, for an output
position, one tap for each position of the kernel, spread by the dilations and moved by the strides;
taps before or after the image are padding. Padding an image with a value and reading it without
padding is the same as reading it with the value for the taps outside (`read_pad`), and with a zero
point for the value those taps contribute nothing (`Image.read_sub`).

The padding that gives an axis `⌈extent / stride⌉` outputs and no more than that needs is the total
by which the last window overhangs the axis (`outExtent_overhang`, `overhang_le`).
-/

namespace IreeRocket.Spatial

/-- A batch of images with channels over `n` axes. -/
structure Image (n : Nat) (R : Type) where
  batch : Nat
  channels : Nat
  extent : Fin n → Nat
  value : Int → Int → (Fin n → Int) → R

variable {n : Nat} {R : Type}

/-- A position on every axis of the image. -/
def Image.Inside (x : Image n R) (p : Fin n → Int) : Prop := ∀ i, 0 ≤ p i ∧ p i < x.extent i

instance (x : Image n R) (p : Fin n → Int) : Decidable (x.Inside p) :=
  inferInstanceAs (Decidable (∀ i, 0 ≤ p i ∧ p i < x.extent i))

/-- The value at a position, or the fill outside of the image. -/
def Image.read (x : Image n R) (fill : R) (b c : Int) (p : Fin n → Int) : R :=
  if x.Inside p then x.value b c p else fill

/-- The image with positions put before and after each axis, or taken away where negative. -/
def Image.pad (x : Image n R) (before after : Fin n → Int) (fill : R) : Image n R where
  batch := x.batch
  channels := x.channels
  extent i := (before i + x.extent i + after i).toNat
  value b c p := x.read fill b c fun i => p i - before i

/-- A position of the padded image reads what it reads of the image, with the fill outside. -/
theorem Image.read_pad (x : Image n R) (before after : Fin n → Int) (fill : R) (b c : Int)
    {p : Fin n → Int} (h : (x.pad before after fill).Inside p) :
    (x.pad before after fill).read fill b c p = x.read fill b c fun i => p i - before i :=
  if_pos h

/-! ### One axis -/

/-- How the outputs of an axis stand over its inputs. -/
structure Axis where
  extent : Nat
  kernel : Nat
  stride : Int
  dilation : Int
  before : Int
  after : Int

namespace Axis

/-- The positions from the first tap to the last. -/
def reach (kernel : Nat) (dilation : Int) : Int := (kernel - 1) * dilation + 1

/-- How often the kernel fits. -/
def outExtent (a : Axis) : Int :=
  (a.before + a.extent + a.after - reach a.kernel a.dilation) / a.stride + 1

/-- The position that tap `t` of output `o` reads. -/
def tap (a : Axis) (o t : Int) : Int := o * a.stride + t * a.dilation - a.before

/-- What is left of the axis when the padding is in it. -/
def padded (a : Axis) : Axis :=
  { a with extent := (a.before + a.extent + a.after).toNat, before := 0, after := 0 }

theorem tap_padded (a : Axis) (o t : Int) : a.padded.tap o t - a.before = a.tap o t := by
  simp only [tap, padded, sub_zero]

/-- An output has all its taps on the padded axis. -/
theorem tap_inside {a : Axis} (hstride : 0 < a.stride) (hdilation : 0 ≤ a.dilation) {o t : Int}
    (ho : 0 ≤ o) (ho' : o < a.outExtent) (ht : 0 ≤ t) (ht' : t < a.kernel) :
    0 ≤ a.padded.tap o t ∧ a.padded.tap o t < a.padded.extent := by
  have hfit : o * a.stride ≤ a.before + a.extent + a.after - reach a.kernel a.dilation :=
    (Int.le_ediv_iff_mul_le hstride).mp (by unfold outExtent at ho'; omega)
  have hlast : t * a.dilation ≤ (a.kernel - 1) * a.dilation :=
    mul_le_mul_of_nonneg_right (by omega) hdilation
  have hfirst : 0 ≤ o * a.stride := mul_nonneg ho hstride.le
  have htap : 0 ≤ t * a.dilation := mul_nonneg ht hdilation
  simp only [tap, padded, reach] at *
  omega

/-- The outputs of a padded axis are those of the axis. -/
theorem outExtent_padded {a : Axis} (hstride : 0 < a.stride) (hreach : 0 < reach a.kernel a.dilation) :
    a.padded.outExtent.toNat = a.outExtent.toNat := by
  rcases le_or_gt 0 (a.before + a.extent + a.after) with h | h
  · simp only [outExtent, padded, zero_add, add_zero, Int.toNat_of_nonneg h]
  · -- what takes more than there is leaves nothing, and no kernel fits there
    have hnone : ∀ left : Int, left ≤ 0 →
        ((left - reach a.kernel a.dilation) / a.stride + 1).toNat = 0 := fun left hleft => by
      have := Int.ediv_neg_of_neg_of_pos (show left - reach a.kernel a.dilation < 0 by omega) hstride
      omega
    simp only [outExtent, padded, Int.toNat_of_nonpos h.le]
    rw [hnone _ h.le, hnone _ (by simp)]

/-- The outputs of an axis with as many as there are strides on it. -/
def sameExtent (extent : Nat) (stride : Int) : Int := (extent + stride - 1) / stride

/-- The positions by which the last of these windows ends behind the axis. -/
def overhang (extent kernel : Nat) (stride dilation : Int) : Int :=
  (sameExtent extent stride - 1) * stride + reach kernel dilation - extent

theorem sameExtent_bounds {extent : Nat} {stride : Int} (hstride : 0 < stride) :
    (sameExtent extent stride - 1) * stride < extent ∧ extent ≤ sameExtent extent stride * stride := by
  have hle := Int.ediv_mul_le (extent + stride - 1 : Int) hstride.ne'
  have hlt := Int.lt_ediv_add_one_mul_self (extent + stride - 1 : Int) hstride
  unfold sameExtent
  constructor <;> linarith

/-- **Padding by the overhang, or none where there is none, gives that many outputs.** -/
theorem outExtent_overhang {a : Axis} (hstride : 0 < a.stride)
    (hreach : 0 < reach a.kernel a.dilation)
    (htotal : a.before + a.after = max 0 (overhang a.extent a.kernel a.stride a.dilation)) :
    a.outExtent = sameExtent a.extent a.stride := by
  have hupper : a.extent ≤ sameExtent a.extent a.stride * a.stride := (sameExtent_bounds hstride).2
  have hspan : a.before + a.extent + a.after - reach a.kernel a.dilation =
      a.extent - reach a.kernel a.dilation + max 0 (overhang a.extent a.kernel a.stride a.dilation) := by
    rw [← htotal]
    ring
  have hfit : (a.before + a.extent + a.after - reach a.kernel a.dilation) / a.stride =
      sameExtent a.extent a.stride - 1 := by
    rw [hspan]
    refine le_antisymm (Int.le_of_lt_add_one ?_) ((Int.le_ediv_iff_mul_le hstride).mpr ?_)
    · rw [Int.ediv_lt_iff_lt_mul hstride, sub_add_cancel]
      rcases le_total 0 (overhang a.extent a.kernel a.stride a.dilation) with h | h
      · rw [max_eq_right h, overhang]
        linarith
      · rw [max_eq_left h]
        linarith
    · have := le_max_right 0 (overhang a.extent a.kernel a.stride a.dilation)
      unfold overhang at this ⊢
      linarith
  rw [outExtent, hfit]
  ring

/-- No less padding gives as many. -/
theorem overhang_le {a : Axis} (hstride : 0 < a.stride) (hpad : 0 ≤ a.before + a.after)
    (h : a.outExtent = sameExtent a.extent a.stride) :
    max 0 (overhang a.extent a.kernel a.stride a.dilation) ≤ a.before + a.after := by
  refine max_le hpad ?_
  have hfit := (Int.le_ediv_iff_mul_le hstride).mp
    (show sameExtent a.extent a.stride - 1 ≤
      (a.before + a.extent + a.after - reach a.kernel a.dilation) / a.stride by
        unfold outExtent at h; omega)
  unfold overhang
  linarith

end Axis

/-! ### The sum over a window -/

variable [CommRing R]

/-- A sum over the input channels and the taps of a window. -/
def windowSum (channels : Nat) (kernel : Fin n → Nat)
    (f : Nat → ((i : Fin n) → Fin (kernel i)) → R) : R :=
  ∑ c ∈ Finset.range channels, ∑ t, f c t

theorem windowSum_congr {channels : Nat} {kernel : Fin n → Nat}
    {f g : Nat → ((i : Fin n) → Fin (kernel i)) → R} (h : ∀ c t, f c t = g c t) :
    windowSum channels kernel f = windowSum channels kernel g :=
  Finset.sum_congr rfl fun c _ => Finset.sum_congr rfl fun t _ => h c t

/-- **A tap outside that reads the zero point contributes nothing.** -/
theorem Image.read_sub (x : Image n R) (zero : R) (b c : Int) (p : Fin n → Int) :
    x.read zero b c p - zero = if x.Inside p then x.value b c p - zero else 0 := by
  unfold Image.read
  split_ifs
  · rfl
  · exact sub_self zero

end IreeRocket.Spatial
