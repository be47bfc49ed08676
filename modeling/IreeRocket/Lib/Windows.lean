import Mathlib.Algebra.Order.Ring.Int
import Mathlib.Data.List.Basic
import Mathlib.Tactic.Common
import Mathlib.Tactic.Ring

/-!
# Sliding windows over a padded line

A window reads `kernel` consecutive positions of a line, every `stride` positions one window, the first
beginning `before` positions ahead of the line. A position outside the line is padding and reads a fill
value. A tile takes consecutive windows and the part of the line they reach, and pads as far as its first
and last window stand out. Its windows then read what the whole line's windows read
(`Cut.window_eq`), whether or not it reaches the line at all.
-/

namespace IreeRocket.Windows

/-- Windows over a line of `input` positions. -/
structure Axis where
  input : Nat
  kernel : Nat
  stride : Nat
  before : Nat

/-- Consecutive windows with the part of the line they are given. -/
structure Tile where
  inFirst : Nat
  inCount : Nat
  outFirst : Nat
  outCount : Nat
  padBefore : Nat
  padAfter : Nat

namespace Axis

variable (a : Axis)

/-- The position a tap reads, negative or past the end where it reads padding. -/
def tap (o t : Nat) : Int := (o * a.stride : Nat) + t - a.before

def Inside (x : Int) : Prop := 0 ≤ x ∧ x < a.input

instance (x : Int) : Decidable (a.Inside x) := inferInstanceAs (Decidable (_ ∧ _))

/-- Where the windows from `outFirst` on begin. -/
def spanFirst (outFirst : Nat) : Int := (outFirst * a.stride : Nat) - a.before

/-- Where the windows before `outEnd` end. -/
def spanEnd (outEnd : Nat) : Int := ((outEnd - 1) * a.stride : Nat) + a.kernel - a.before

/-- What a window reads of a line. -/
def window {α : Type*} (line : Nat → α) (fill : α) (o : Nat) : List α :=
  (List.range a.kernel).map fun t => if a.Inside (a.tap o t) then line (a.tap o t).toNat else fill

end Axis

namespace Tile

variable (a : Axis) (tile : Tile)

/-- The position a tap reads in the tile's part of the line. -/
def tap (o t : Nat) : Int := ((o - tile.outFirst) * a.stride : Nat) + t - tile.padBefore

def Inside (x : Int) : Prop := 0 ≤ x ∧ x < tile.inCount

instance (x : Int) : Decidable (tile.Inside x) := inferInstanceAs (Decidable (_ ∧ _))

/-- What a window of the tile reads of the tile's part. -/
def window {α : Type*} (line : Nat → α) (fill : α) (o : Nat) : List α :=
  (List.range a.kernel).map fun t =>
    if tile.Inside (tile.tap a o t) then line (tile.tap a o t).toNat else fill

end Tile

/-- A tile is given the part of the line its windows reach, and the padding by which they stand out. -/
structure Cut (a : Axis) (tile : Tile) : Prop where
  inFirst : (tile.inFirst : Int) = max (a.spanFirst tile.outFirst) 0
  inEnd : ((tile.inFirst + tile.inCount : Nat) : Int) =
    max (min (a.spanEnd (tile.outFirst + tile.outCount)) a.input) 0
  padBefore : (tile.padBefore : Int) = max (-a.spanFirst tile.outFirst) 0
  padAfter : (tile.padAfter : Int) = max (a.spanEnd (tile.outFirst + tile.outCount) - a.input) 0

namespace Cut

variable {a : Axis} {tile : Tile} {o t : Nat}

/-- A tap reads the same position of the line through the tile. -/
theorem tap_eq (h : Cut a tile) (ho : tile.outFirst ≤ o) :
    a.tap o t = tile.inFirst + tile.tap a o t := by
  have hsplit : o * a.stride = tile.outFirst * a.stride + (o - tile.outFirst) * a.stride := by
    rw [← Nat.add_mul, Nat.add_sub_cancel' ho]
  have hfirst := h.inFirst
  have hpad := h.padBefore
  unfold Axis.spanFirst at hfirst hpad
  unfold Axis.tap Tile.tap
  omega

/-- The taps of a tile's windows lie in their span. -/
theorem tap_span (ho : tile.outFirst ≤ o) (ho' : o < tile.outFirst + tile.outCount)
    (ht : t < a.kernel) : a.spanFirst tile.outFirst ≤ a.tap o t ∧
      a.tap o t < a.spanEnd (tile.outFirst + tile.outCount) := by
  have hlow : tile.outFirst * a.stride ≤ o * a.stride := Nat.mul_le_mul_right _ ho
  have hhigh : o * a.stride ≤ (tile.outFirst + tile.outCount - 1) * a.stride :=
    Nat.mul_le_mul_right _ (by omega)
  unfold Axis.spanFirst Axis.spanEnd Axis.tap
  omega

/-- **A tap reads the line exactly when it reads the tile's part of it.** -/
theorem inside_iff (h : Cut a tile) (ho : tile.outFirst ≤ o)
    (ho' : o < tile.outFirst + tile.outCount) (ht : t < a.kernel) :
    a.Inside (a.tap o t) ↔ tile.Inside (tile.tap a o t) := by
  obtain ⟨hlow, hhigh⟩ := tap_span ho ho' ht
  have htap := h.tap_eq (t := t) ho
  have hfirst := h.inFirst
  have hend := h.inEnd
  unfold Axis.Inside Tile.Inside
  omega

/-- **A tile's windows read what the whole line's windows read.** -/
theorem window_eq {α : Type*} (h : Cut a tile) (ho : tile.outFirst ≤ o)
    (ho' : o < tile.outFirst + tile.outCount) (line : Nat → α) (fill : α) :
    tile.window a (fun x => line (tile.inFirst + x)) fill o = a.window line fill o := by
  apply List.map_congr_left
  intro t ht
  have ht := List.mem_range.mp ht
  have hinside := h.inside_iff ho ho' ht
  have htap := h.tap_eq (t := t) ho
  by_cases hin : a.Inside (a.tap o t)
  · have hlocal := hinside.mp hin
    have hplace : tile.inFirst + (tile.tap a o t).toNat = (a.tap o t).toNat := by
      unfold Tile.Inside at hlocal
      omega
    rw [if_pos hin, if_pos hlocal, ← hplace]
  · rw [if_neg hin, if_neg (hinside.not.mp hin)]

/-- The part of the line a tile is given lies in the line. -/
theorem inEnd_le (h : Cut a tile) : tile.inFirst + tile.inCount ≤ a.input := by
  have hend := h.inEnd
  omega

/-- A tile is given some of the line exactly when its windows reach it. -/
theorem inCount_pos_iff (h : Cut a tile) : 0 < tile.inCount ↔
    max (a.spanFirst tile.outFirst) 0 < min (a.spanEnd (tile.outFirst + tile.outCount)) a.input := by
  have hfirst := h.inFirst
  have hend := h.inEnd
  omega

end Cut

end IreeRocket.Windows
