import IreeRocket.Lib.Scalars
import Mathlib.Data.List.Nodup
import Mathlib.Data.List.ProdSigma
import Mathlib.Data.List.GetD
import Mathlib.Algebra.Ring.Nat

/-!
# Tensors and the named operations on them

An operation relates its operands to its results: the elements inside of the result's shape are fixed up
to the order of the reductions, and there is no result for operands whose sizes disagree. Contractions
differ in the loops that index their operands, and convolutions in the order of their dimensions.
-/

namespace IreeRocket.Linalg

variable {V : Type} {F : Floats}

/-- The elements of a tensor, each at an index within its shape. A scalar has no dimensions. -/
structure Tensor (V : Type) where
  shape : List Nat
  elem : List Nat → V

/-! ### Indices -/

def InBounds (index shape : List Nat) : Prop := List.Forall₂ (· < ·) index shape

/-- The entries that are picked. -/
def gather (picks entries : List Nat) : List Nat := picks.map fun pick => entries.getD pick 0

/-- The place of an index in row-major order. -/
def rowMajor (shape index : List Nat) : Nat :=
  (shape.zip index).foldl (fun place axis => place * axis.1 + axis.2) 0

theorem forall_inBounds_nil {P : List Nat → Prop} : (∀ p, InBounds p [] → P p) ↔ P [] :=
  ⟨fun h => h [] .nil, fun h p hp => by
    cases hp
    exact h⟩

theorem forall_inBounds_cons {n : Nat} {shape : List Nat} {P : List Nat → Prop} :
    (∀ p, InBounds p (n :: shape) → P p) ↔ ∀ i < n, ∀ p, InBounds p shape → P (i :: p) :=
  ⟨fun h _ hi _ hp => h _ (.cons hi hp), fun h p hp => by
    cases hp with
    | cons hi hp => exact h _ hi _ hp⟩

/-- The place of an index of a matrix is that of the index in a batch of one. -/
theorem rowMajor_unit (m n i j : Nat) : rowMajor [1, m, n] [0, i, j] = rowMajor [m, n] [i, j] := by
  simp [rowMajor]

/-- A place belongs to one index of a matrix. -/
theorem rowMajor_injective {m n i j i' j' : Nat} (hj : j < n) (hj' : j' < n)
    (h : rowMajor [m, n] [i, j] = rowMajor [m, n] [i', j']) : i = i' ∧ j = j' := by
  have hplace : i * n + j = i' * n + j' := by simpa [rowMajor] using h
  have hn : 0 < n := by omega
  have hrow : ∀ a b : Nat, b < n → (a * n + b) / n = a := fun a b hb => by
    rw [Nat.add_comm, Nat.add_mul_div_right _ _ hn, Nat.div_eq_of_lt hb, Nat.zero_add]
  have hi : i = i' := by rw [← hrow i j hj, hplace, hrow i' j' hj']
  subst hi
  exact ⟨rfl, by omega⟩

/-! ### Operations that move elements -/

/-- Groups of the dimensions of one tensor are the dimensions of the other, in row-major order. -/
def Grouped (groups : List (List Nat)) (expanded collapsed : Tensor V) : Prop :=
  collapsed.shape = groups.map (fun group => (gather group expanded.shape).prod) ∧
    ∀ p, InBounds p expanded.shape → expanded.elem p =
      collapsed.elem (groups.map fun group => rowMajor (gather group expanded.shape) (gather group p))

/-- `linalg.transpose`: the result's dimension `i` is the source's dimension `permutation[i]`. -/
def Transposed (permutation : List Nat) (source result : Tensor V) : Prop :=
  permutation.Perm (List.range source.shape.length) ∧ result.shape = gather permutation source.shape ∧
    ∀ p, InBounds p source.shape → result.elem (gather permutation p) = source.elem p

/-- A part of a tensor. -/
structure Slice where
  offsets : List Nat
  sizes : List Nat
  strides : List Nat

namespace Slice

def position (slice : Slice) (p : List Nat) : List Nat :=
  List.zipWith (· + ·) slice.offsets (List.zipWith (· * ·) slice.strides p)

/-- The part is the slice of the whole, with or without its unit dimensions: the order is the same. -/
structure Of (slice : Slice) (part whole : Tensor V) : Prop where
  within : ∀ p, InBounds p slice.sizes → InBounds (slice.position p) whole.shape
  shape : part.shape.filter (· ≠ 1) = slice.sizes.filter (· ≠ 1)
  elem : ∀ p, InBounds p part.shape → ∀ q, InBounds q slice.sizes →
    rowMajor slice.sizes q = rowMajor part.shape p → part.elem p = whole.elem (slice.position q)

/-- The result is the destination but for the slice. -/
structure Inserted (slice : Slice) (part destination result : Tensor V) : Prop where
  shape : result.shape = destination.shape
  part : slice.Of part result
  rest : ∀ p, InBounds p destination.shape → (∀ q, InBounds q slice.sizes → p ≠ slice.position q) →
    result.elem p = destination.elem p

end Slice

/-! ### Contractions -/

/-- The loops that index the operands and the accumulator. The last loop is the reduction. -/
structure Contraction where
  lhs : List Nat
  rhs : List Nat
  out : List Nat
deriving DecidableEq

section Contraction

variable {a b c : ElementType F}

/-- Sums of products over the last loop. -/
structure Contraction.Result (maps : Contraction) (fn : TypeFn) (sizes : List Nat) (depth : Nat)
    (lhs : Tensor (Scalar F a)) (rhs : Tensor (Scalar F b)) (init result : Tensor (Scalar F c)) : Prop where
  lhsShape : lhs.shape = gather maps.lhs (sizes ++ [depth])
  rhsShape : rhs.shape = gather maps.rhs (sizes ++ [depth])
  initShape : init.shape = gather maps.out sizes
  shape : result.shape = init.shape
  sums : ∀ p, InBounds p sizes → Reduces (add c) (init.elem (gather maps.out p))
    ((List.range depth).map fun k => product fn a b c (lhs.elem (gather maps.lhs (p ++ [k])))
      (rhs.elem (gather maps.rhs (p ++ [k]))))
    (result.elem (gather maps.out p))

variable (fn : TypeFn) (lhs : Tensor (Scalar F a)) (rhs : Tensor (Scalar F b))
  (init result : Tensor (Scalar F c))

/-- `A[m, k] * y[k] -> z[m]`. -/
def Matvec : Prop := ∃ m k, Contraction.Result ⟨[0, 1], [1], [0]⟩ fn [m] k lhs rhs init result

/-- `y[k] * A[k, n] -> z[n]`. -/
def Vecmat : Prop := ∃ n k, Contraction.Result ⟨[1], [1, 0], [0]⟩ fn [n] k lhs rhs init result

/-- `A[m, k] * B[k, n] -> C[m, n]`. -/
def Matmul : Prop := ∃ m n k, Contraction.Result ⟨[0, 2], [2, 1], [0, 1]⟩ fn [m, n] k lhs rhs init result

/-- The maps of a `batch_matmul` that has none of its own, over the loops `b`, `m`, `n` and `k`. -/
def batchMatmulMaps : Contraction := ⟨[0, 1, 3], [0, 3, 2], [0, 1, 2]⟩

/-- `A[b, m, k] * B[b, k, n] -> C[b, m, n]`, unless it has other maps. -/
def BatchMatmul (maps : Contraction) : Prop :=
  ∃ batch m n k, maps.Result fn [batch, m, n] k lhs rhs init result

end Contraction

/-! ### Convolutions -/

/-- The order of the dimensions, and that of the loops over input channel, row and column of the kernel. -/
structure ConvLayout where
  input : (batch channel row column : Nat) → List Nat
  filter : (outChannel inChannel row column : Nat) → List Nat
  output : (batch channel row column : Nat) → List Nat
  taps : (channels rows columns : Nat) → List (Nat × Nat × Nat)

def nchwFchw : ConvLayout where
  input n c h w := [n, c, h, w]
  filter f c h w := [f, c, h, w]
  output n f h w := [n, f, h, w]
  taps c h w := List.range c ×ˢ List.range h ×ˢ List.range w

def nhwcHwcf : ConvLayout where
  input n c h w := [n, h, w, c]
  filter f c h w := [h, w, c, f]
  output n f h w := [n, h, w, f]
  taps c h w := (List.range h ×ˢ List.range w ×ˢ List.range c).map fun tap => (tap.2.2, tap.1, tap.2.1)

structure ConvSizes where
  batch : Nat
  inChannels : Nat
  outChannels : Nat
  inRows : Nat
  inColumns : Nat
  kernelRows : Nat
  kernelColumns : Nat
  outRows : Nat
  outColumns : Nat

/-- The position on an axis that a tap of an output reads. -/
def tapAt (strides dilations : List Int) (axis output tap : Nat) : Int :=
  output * strides.getD axis 0 + tap * dilations.getD axis 0

section Convolution

variable {x w xz wz y : ElementType F}

/-- The product for one tap, each operand less its zero point. -/
def quantizedProduct (y : ElementType F) (input : Scalar F x) (inputZero : Scalar F xz) (filter : Scalar F w)
    (filterZero : Scalar F wz) : Scalar F y :=
  mul y (sub y (convert .castSigned x y input) (convert .castSigned xz y inputZero))
    (sub y (convert .castSigned w y filter) (convert .castSigned wz y filterZero))

/-- A convolution of two spatial axes without padding. -/
structure QuantizedConv (layout : ConvLayout) (strides dilations : List Int) (s : ConvSizes)
    (input : Tensor (Scalar F x)) (filter : Tensor (Scalar F w)) (inputZero : Tensor (Scalar F xz))
    (filterZero : Tensor (Scalar F wz)) (init result : Tensor (Scalar F y)) : Prop where
  inputShape : input.shape = layout.input s.batch s.inChannels s.inRows s.inColumns
  filterShape : filter.shape = layout.filter s.outChannels s.inChannels s.kernelRows s.kernelColumns
  initShape : init.shape = layout.output s.batch s.outChannels s.outRows s.outColumns
  shape : result.shape = init.shape
  rows : ∀ o < s.outRows, ∀ t < s.kernelRows,
    0 ≤ tapAt strides dilations 0 o t ∧ tapAt strides dilations 0 o t < s.inRows
  columns : ∀ o < s.outColumns, ∀ t < s.kernelColumns,
    0 ≤ tapAt strides dilations 1 o t ∧ tapAt strides dilations 1 o t < s.inColumns
  sums : ∀ n < s.batch, ∀ f < s.outChannels, ∀ i < s.outRows, ∀ j < s.outColumns,
    Reduces (add y) (init.elem (layout.output n f i j))
      ((layout.taps s.inChannels s.kernelRows s.kernelColumns).map fun tap =>
        quantizedProduct y
          (input.elem (layout.input n tap.1 (tapAt strides dilations 0 i tap.2.1).toNat
            (tapAt strides dilations 1 j tap.2.2).toNat)) (inputZero.elem [])
          (filter.elem (layout.filter f tap.1 tap.2.1 tap.2.2)) (filterZero.elem []))
      (result.elem (layout.output n f i j))

end Convolution

end IreeRocket.Linalg
