import IreeRocket.Lib.LinalgLaws
import IreeRocket.Plugin.StructuralRewrites

/-!
# What the rewrites compute

An operation and the value that replaces it are read over the operands of a run, which have the shapes of
their types. What is created has the shape of its type in every run (`Value.Is.fits`).

The reshapes of `matvec` and `vecmat` and the transpositions of a convolution change nothing, and a batch
becomes the products of its entries with operands that are cast as signed.
-/

namespace IreeRocket.Plugin.Structural

open Linalg

variable {F : Floats} {op : Operation F}

/-! ### Runs -/

/-- Sizes that a type has or leaves open. -/
def FitsShape (shape : TypeShape) (sizes : List Nat) : Prop :=
  List.Forall₂ (fun size n => size = none ∨ size = some n) shape sizes

/-- The operands of an operation in a run. -/
structure Run (op : Operation F) where
  input : (i : Nat) → Tensor (Scalar F (op.inputElement i))
  init : (i : Nat) → Tensor (Scalar F (op.initElement i))
  inputFits : ∀ i, FitsShape (op.inputType i).shape (input i).shape
  initFits : ∀ i, FitsShape (op.initType i).shape (init i).shape

/-- The results of an operation. The casts of all but `batch_matmul` are fixed. -/
def Operation.Result (op : Operation F) (run : Run op) (result : Tensor (Scalar F (op.initElement 0))) : Prop :=
  match op.name with
  | .matvec => Matvec .castSigned (run.input 0) (run.input 1) (run.init 0) result
  | .vecmat => Vecmat .castSigned (run.input 0) (run.input 1) (run.init 0) result
  | .batchMatmul indexingMaps cast =>
    BatchMatmul cast (run.input 0) (run.input 1) (run.init 0) result indexingMaps
  | .conv2dNchwFchwQ strides dilations => ∃ sizes, QuantizedConv nchwFchw strides dilations sizes (run.input 0)
    (run.input 1) (run.input 2) (run.input 3) (run.init 0) result

/-- The types of the operands agree. -/
def Operation.Verified (op : Operation F) : Prop := ∃ (run : Run op) (result : _), op.Result run result

def Size.eval (source : List Nat) : Size → Nat
  | .constant size => size
  | .dim index => source.getD index 0

/-- The tensors that a value can be. -/
def Value.Is (run : Run op) : {e : ElementType F} → Value op e → Tensor (Scalar F e) → Prop
  | _, .input i, t => t = run.input i
  | _, .init i, t => t = run.init i
  | _, .expandShape type source reassociation outputShape, t => ∃ s, source.Is run s ∧ FitsShape type t.shape ∧
    t.shape = outputShape.map (Size.eval s.shape) ∧ Grouped reassociation t s
  | _, .collapseShape type source reassociation, t => ∃ s, source.Is run s ∧ FitsShape type t.shape ∧
    Grouped reassociation s t
  | _, .extractSlice type source slice, t => ∃ s, source.Is run s ∧ FitsShape type t.shape ∧ slice.Of t s
  | _, .insertSlice source destination slice, t => ∃ s d, source.Is run s ∧ destination.Is run d ∧
    slice.Inserted s d t
  | _, .transpose type source empty permutation, t => ∃ s, source.Is run s ∧ FitsShape type t.shape ∧
    t.shape = empty.map (Size.eval s.shape) ∧ Transposed permutation s t
  | _, .matmul cast lhs rhs accumulator, t => ∃ l r i, lhs.Is run l ∧ rhs.Is run r ∧ accumulator.Is run i ∧
    Matmul cast l r i t
  | _, .conv2dNhwcHwcfQ strides dilations image filter imageZeroPoint filterZeroPoint accumulator, t =>
    ∃ x w xz wz i, image.Is run x ∧ filter.Is run w ∧ imageZeroPoint.Is run xz ∧ filterZeroPoint.Is run wz ∧
      accumulator.Is run i ∧ ∃ sizes, QuantizedConv nhwcHwcf strides dilations sizes x w xz wz i t

/-! ### Types -/

variable {run : Run op} {e : ElementType F}

/-- **What is created has the shape of its type.** -/
theorem Value.Is.fits {value : Value op e} {t : Tensor (Scalar F e)} (h : value.Is run t) :
    FitsShape value.shape t.shape := by
  induction value with
  | input i =>
    have h : t = run.input i := h
    exact h ▸ run.inputFits i
  | init i =>
    have h : t = run.init i := h
    exact h ▸ run.initFits i
  | expandShape type source reassociation outputShape =>
    obtain ⟨s, -, hfits, -⟩ := h
    exact hfits
  | collapseShape type source reassociation =>
    obtain ⟨s, -, hfits, -⟩ := h
    exact hfits
  | extractSlice type source slice =>
    obtain ⟨s, -, hfits, -⟩ := h
    exact hfits
  | insertSlice source destination slice _ ih =>
    obtain ⟨s, d, -, hd, hinserted⟩ := h
    exact hinserted.shape ▸ ih hd
  | transpose type source empty permutation =>
    obtain ⟨s, -, hfits, -⟩ := h
    exact hfits
  | matmul cast lhs rhs init _ _ ih =>
    obtain ⟨l, r, i, -, -, hi, m, n, k, hresult⟩ := h
    exact hresult.shape ▸ ih hi
  | conv2dNhwcHwcfQ strides dilations input filter inputZeroPoint filterZeroPoint init _ _ _ _ ih =>
    obtain ⟨x, w, xz, wz, i, -, -, -, -, hi, sizes, hresult⟩ := h
    exact hresult.shape ▸ ih hi

theorem FitsShape.length {shape : TypeShape} {sizes : List Nat} (h : FitsShape shape sizes) :
    shape.length = sizes.length := List.Forall₂.length_eq h

/-- The size of a dimension is what the type has or `tensor.dim` gives. -/
theorem FitsShape.mixedSize {shape : TypeShape} {sizes : List Nat} (h : FitsShape shape sizes) {i : Nat}
    (hi : i < sizes.length) : (mixedSize shape i).eval sizes = sizes.getD i 0 := by
  have hshape : i < shape.length := h.length.symm ▸ hi
  have hsize := h.get hshape hi
  rw [List.get_eq_getElem, List.get_eq_getElem] at hsize
  unfold Structural.mixedSize dimSize
  rw [List.getD_eq_getElem _ _ hshape]
  rcases hsize with hsize | hsize
  · rw [hsize]
    rfl
  · rw [hsize, List.getD_eq_getElem _ _ hi]
    rfl

/-- The size of a dimension is one that its type allows. -/
theorem FitsShape.dimSize {shape : TypeShape} {sizes : List Nat} (h : FitsShape shape sizes) {i : Nat}
    (hi : i < sizes.length) : dimSize shape i = none ∨ dimSize shape i = some (sizes.getD i 0) := by
  have hshape : i < shape.length := h.length.symm ▸ hi
  unfold Structural.dimSize
  rw [List.getD_eq_getElem _ _ hshape, List.getD_eq_getElem _ _ hi]
  exact h.get hshape hi

/-- A static type has the sizes of every run. -/
theorem FitsShape.static {shape : TypeShape} {sizes : List Nat} (h : FitsShape shape sizes)
    (hstatic : shape.all Option.isSome) : shape = sizes.map some := by
  induction h with
  | nil => rfl
  | cons hsize _ ih =>
    simp only [List.all_cons, Bool.and_eq_true] at hstatic
    rcases hsize with rfl | rfl
    · simp at hstatic
    · rw [List.map_cons, ih hstatic.2]

end IreeRocket.Plugin.Structural
