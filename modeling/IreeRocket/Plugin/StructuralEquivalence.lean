import IreeRocket.Plugin.StructuralMeaning

/-!
# The rewrites preserve the results, casts apart

The pattern of `matvec` and `vecmat` and that of the quantized convolution give values with the results of
the operation, and the one of `batch_matmul` gives those of a batch that casts its operands as signed. The
steps of the latter write one entry each: after some of them, these entries are products and the others are
those of the accumulator.
-/

namespace IreeRocket.Plugin.Structural

open Linalg

variable {F : Floats} {op : Operation F} {run : Run op} {e : ElementType F}

/-! ### matvec and vecmat -/

/-- A vector operand becomes its matrix. -/
theorem expandToRank2_is {value : Value op e} {v t : Tensor (Scalar F e)} (hv : ∀ s, value.Is run s ↔ s = v)
    {dim : Nat} (hdim : dim < 2) : (expandToRank2 value dim).Is run t ↔ Raised dim t v := by
  have hfits : FitsShape value.shape v.shape := ((hv v).mpr rfl).fits
  have hsizes : ∀ {n}, v.shape = [n] → ([Size.constant 1, Size.constant 1].set dim (mixedSize value.shape 0)).map
      (Size.eval v.shape) = [1, 1].set dim n := fun {n} hn => by
    rw [List.map_set, hfits.mixedSize (by simp [hn]), hn]
    rfl
  constructor
  · rintro ⟨s, hs, -, hshape, hgrouped⟩
    obtain rfl := (hv s).mp hs
    obtain ⟨n, hn⟩ : ∃ n, s.shape = [n] := List.length_eq_one_iff.mp (by rw [hgrouped.1]; rfl)
    exact (grouped_iff_raised hdim (hshape.trans (hsizes hn))).mp hgrouped
  · intro h
    have hraised := h
    obtain ⟨n, hn, hshape, -⟩ := h
    refine ⟨v, (hv v).mpr rfl, ?_, hshape.trans (hsizes hn).symm, (grouped_iff_raised hdim hshape).mpr hraised⟩
    have hsize := hfits.dimSize (i := 0) (by simp [hn])
    rw [hn] at hsize
    rw [hshape]
    have hone : (some 1 : Option Nat) = none ∨ some 1 = some 1 := .inr rfl
    rcases (show dim = 0 ∨ dim = 1 by omega) with rfl | rfl
    · exact .cons hsize (.cons hone .nil)
    · exact .cons hone (.cons hsize .nil)

/-- A vector is the collapsed result. -/
theorem collapse_iff {type : TypeShape} {dim n : Nat} (hdim : dim < 2) {init matrix result : Tensor (Scalar F e)}
    (hinit : FitsShape type init.shape) (hn : init.shape = [n]) (hmatrix : matrix.shape = [1, 1].set dim n) :
    FitsShape type result.shape ∧ Grouped [[0, 1]] matrix result ↔ Raised dim matrix result := by
  rw [grouped_iff_raised hdim hmatrix]
  refine and_iff_right_of_imp fun h => ?_
  obtain ⟨n', hresult, hmatrix', -⟩ := h
  have heq : n' = n := by
    have := hmatrix'.symm.trans hmatrix
    rcases (show dim = 0 ∨ dim = 1 by omega) with rfl | rfl <;> simpa using this
  rw [hresult, heq, ← hn]
  exact hinit

theorem rank_of_any {type : OperandType F} {n : Nat}
    (h : type.rankedTensor?.any fun shape => shape.length = n) : type.shape.length = n := by
  cases type with
  | rankedTensor shape element => exact of_decide_eq_true h
  | memref shape element => cases h
  | scalar element => cases h

/-- What the pattern gives. The accumulator is a vector. -/
theorem expandGemvToMatmul_ok {vectorOperand vectorDim : Nat} {value : Value op (op.initElement 0)}
    (h : expandGemvToMatmul vectorOperand vectorDim op = .ok value) :
    (op.initType 0).shape.length = 1 ∧ value = .collapseShape (op.initType 0).shape
      (.matmul .castSigned (if vectorOperand = 0 then expandToRank2 (.input 0) vectorDim else .input 0)
        (if vectorOperand = 1 then expandToRank2 (.input 1) vectorDim else .input 1)
        (expandToRank2 (.init 0) vectorDim)) [[0, 1]] := by
  unfold expandGemvToMatmul at h
  simp only [bind_unit_ok, unlessErr_ok, pure_ok] at h
  obtain ⟨-, -, hrank, -, rfl⟩ := h
  exact ⟨rank_of_any hrank, rfl⟩

/-- **The matmul in the place of a matvec has its results.** -/
theorem matvec_preserved {value : Value op (op.initElement 0)} (h : expandGemvToMatmul 1 0 op = .ok value)
    (result : Tensor (Scalar F (op.initElement 0))) : value.Is run result ↔
      Matvec .castSigned (run.input 0) (run.input 1) (run.init 0) result := by
  obtain ⟨hrank, rfl⟩ := expandGemvToMatmul_ok h
  rw [if_neg (by decide), if_pos rfl]
  have hrhs : ∀ t, (expandToRank2 (.input 1 : Value op _) 0).Is run t ↔ Raised 0 t (run.input 1) := fun t =>
    expandToRank2_is (fun _ => Iff.rfl) (by decide)
  have hinit : ∀ t, (expandToRank2 (.init 0 : Value op _) 0).Is run t ↔ Raised 0 t (run.init 0) := fun t =>
    expandToRank2_is (fun _ => Iff.rfl) (by decide)
  obtain ⟨n, hn⟩ : ∃ n, (run.init 0).shape = [n] :=
    List.length_eq_one_iff.mp ((run.initFits 0).length.symm.trans hrank)
  constructor
  · rintro ⟨matrix, ⟨lhs, column, initColumn, hl, hr, hi, hmatmul⟩, hresult⟩
    obtain rfl : lhs = run.input 0 := hl
    have hr := (hrhs column).mp hr
    have hi := (hinit initColumn).mp hi
    have hmatrix : matrix.shape = [1, 1].set 0 n := by
      obtain ⟨_, _, _, hresult⟩ := hmatmul
      exact hresult.shape.trans (hi.shape hn)
    exact (matmul_column hr hi ((collapse_iff (by decide) (run.initFits 0) hn hmatrix).mp hresult)).mp hmatmul
  · intro hresult
    obtain ⟨m, k, hlhs, hrhsShape, hinitShape, hresultShape, -⟩ := matvec_iff.mp hresult
    have hr := raised_raise (show 0 < 2 by decide) hrhsShape
    have hi := raised_raise (show 0 < 2 by decide) hinitShape
    have ho := raised_raise (show 0 < 2 by decide) hresultShape
    have hmatrix := ho.shape hresultShape
    refine ⟨raise 0 result, ⟨run.input 0, raise 0 (run.input 1), raise 0 (run.init 0), rfl, (hrhs _).mpr hr,
      (hinit _).mpr hi, (matmul_column hr hi ho).mpr hresult⟩, ?_⟩
    exact (collapse_iff (by decide) (run.initFits 0) hinitShape hmatrix).mpr ho

/-- **The matmul in the place of a vecmat has its results.** -/
theorem vecmat_preserved {value : Value op (op.initElement 0)} (h : expandGemvToMatmul 0 1 op = .ok value)
    (result : Tensor (Scalar F (op.initElement 0))) : value.Is run result ↔
      Vecmat .castSigned (run.input 0) (run.input 1) (run.init 0) result := by
  obtain ⟨hrank, rfl⟩ := expandGemvToMatmul_ok h
  rw [if_pos rfl, if_neg (by decide)]
  have hlhs : ∀ t, (expandToRank2 (.input 0 : Value op _) 1).Is run t ↔ Raised 1 t (run.input 0) := fun t =>
    expandToRank2_is (fun _ => Iff.rfl) (by decide)
  have hinit : ∀ t, (expandToRank2 (.init 0 : Value op _) 1).Is run t ↔ Raised 1 t (run.init 0) := fun t =>
    expandToRank2_is (fun _ => Iff.rfl) (by decide)
  obtain ⟨n, hn⟩ : ∃ n, (run.init 0).shape = [n] :=
    List.length_eq_one_iff.mp ((run.initFits 0).length.symm.trans hrank)
  constructor
  · rintro ⟨matrix, ⟨row, rhs, initRow, hl, hr, hi, hmatmul⟩, hresult⟩
    obtain rfl : rhs = run.input 1 := hr
    have hl := (hlhs row).mp hl
    have hi := (hinit initRow).mp hi
    have hmatrix : matrix.shape = [1, 1].set 1 n := by
      obtain ⟨_, _, _, hresult⟩ := hmatmul
      exact hresult.shape.trans (hi.shape hn)
    exact (matmul_row hl hi ((collapse_iff (by decide) (run.initFits 0) hn hmatrix).mp hresult)).mp hmatmul
  · intro hresult
    obtain ⟨m, k, hlhsShape, hrhs, hinitShape, hresultShape, -⟩ := vecmat_iff.mp hresult
    have hl := raised_raise (show 1 < 2 by decide) hlhsShape
    have hi := raised_raise (show 1 < 2 by decide) hinitShape
    have ho := raised_raise (show 1 < 2 by decide) hresultShape
    have hmatrix := ho.shape hresultShape
    refine ⟨raise 1 result, ⟨raise 1 (run.input 0), run.input 1, raise 1 (run.init 0), (hlhs _).mpr hl, rfl,
      (hinit _).mpr hi, (matmul_row hl hi ho).mpr hresult⟩, ?_⟩
    exact (collapse_iff (by decide) (run.initFits 0) hinitShape hmatrix).mpr ho

/-! ### conv_2d_nchw_fchw_q -/

theorem transposeTo_is {value : Value op e} {t : Tensor (Scalar F e)} {permutation : List Nat} :
    (transposeTo value permutation).Is run t ↔ ∃ s, value.Is run s ∧ Transposed permutation s t := by
  refine exists_congr fun s => and_congr_right fun hs => ⟨fun h => h.2.2, fun h => ?_⟩
  have hfits := hs.fits
  have hlt : ∀ i ∈ permutation, i < s.shape.length := fun i hi => List.mem_range.mp (h.1.mem_iff.mp hi)
  have hsizes : t.shape = permutation.map fun i => s.shape.getD i 0 := h.2.1
  refine ⟨?_, ?_, h⟩
  · rw [hsizes]
    refine List.forall₂_map_left_iff.mpr (List.forall₂_map_right_iff.mpr ?_)
    exact List.forall₂_same.mpr fun i hi => hfits.dimSize (hlt i hi)
  · rw [hsizes, List.map_map]
    exact List.map_congr_left fun i hi => (hfits.mixedSize (hlt i hi)).symm

/-- **The convolution in the other layout has the results of the one it replaces.** -/
theorem quantizedConv_preserved {strides dilations : List Int} {value : Value op (op.initElement 0)}
    (h : transposeQuantizedConvToNhwc strides dilations op = .ok value)
    (result : Tensor (Scalar F (op.initElement 0))) : value.Is run result ↔
      ∃ sizes, QuantizedConv nchwFchw strides dilations sizes (run.input 0) (run.input 1) (run.input 2)
        (run.input 3) (run.init 0) result := by
  unfold transposeQuantizedConvToNhwc at h
  simp only [bind_unit_ok, unlessErr_ok, pure_ok] at h
  obtain ⟨-, -, rfl⟩ := h
  rw [transposeTo_is]
  constructor
  · rintro ⟨conv, ⟨x, w, xz, wz, i, hx, hw, hxz, hwz, hi, sizes, hconv⟩, hresult⟩
    obtain ⟨input, hinput, hx⟩ := transposeTo_is.mp hx
    obtain ⟨filter, hfilter, hw⟩ := transposeTo_is.mp hw
    obtain ⟨init, hinit, hi⟩ := transposeTo_is.mp hi
    obtain rfl : input = run.input 0 := hinput
    obtain rfl : filter = run.input 1 := hfilter
    obtain rfl : init = run.init 0 := hinit
    obtain rfl : xz = run.input 2 := hxz
    obtain rfl : wz = run.input 3 := hwz
    have hinitShape := (hi.sourceShape channelsLast_inverse).trans (congrArg _ hconv.initShape)
    obtain ⟨hresultShape, hresult⟩ := (transposed_back (hconv.shape.trans hconv.initShape)).mp hresult
    refine ⟨sizes, (quantizedConv_transposed hx hw hi hresult ?_ ?_ hinitShape ?_).mp hconv⟩
    · exact (hx.sourceShape channelsLast_inverse).trans (congrArg _ hconv.inputShape)
    · exact (hw.sourceShape filter_inverse).trans (congrArg _ hconv.filterShape)
    · exact hresultShape.trans hinitShape.symm
  · rintro ⟨sizes, hconv⟩
    have hx := transposed_transpose channelsLast_inverse hconv.inputShape
    have hw := transposed_transpose filter_inverse hconv.filterShape
    have hi := transposed_transpose channelsLast_inverse hconv.initShape
    have hresultShape := hconv.shape.trans hconv.initShape
    have hr := transposed_transpose channelsLast_inverse hresultShape
    refine ⟨_, ⟨_, _, run.input 2, run.input 3, _, transposeTo_is.mpr ⟨_, rfl, hx⟩,
      transposeTo_is.mpr ⟨_, rfl, hw⟩, rfl, rfl, transposeTo_is.mpr ⟨_, rfl, hi⟩, sizes,
      (quantizedConv_transposed hx hw hi hr hconv.inputShape hconv.filterShape hconv.initShape hconv.shape).mpr
        hconv⟩, ?_⟩
    exact (transposed_back (hr.2.1.trans (congrArg _ hresultShape))).mpr ⟨hresultShape, hr⟩

/-! ### batch_matmul -/

/-- An accepted batch: the types of its operands, and what the pattern gives. -/
theorem unbatchMatmul_ok {maps : Contraction} {value : Value op (op.initElement 0)}
    (h : unbatchMatmul maps op = .ok value) : maps = batchMatmulMaps ∧
      (op.inputType 0).shape.all Option.isSome ∧ (op.inputType 1).shape.all Option.isSome ∧
      (op.initType 0).shape.all Option.isSome ∧ 1 < (dimSize (op.initType 0).shape 0).getD 0 ∧
      value = (List.range ((dimSize (op.initType 0).shape 0).getD 0)).foldl (unbatchStep op) (.init 0) := by
  unfold unbatchMatmul at h
  simp only [bind_ok, unlessErr_ok, pure_ok] at h
  obtain ⟨_, -, _, ⟨hinputs, -⟩, _, hmaps, _, -, checks, hchecks, _, hinit, _, -, _, hone, _, -, rfl⟩ := h
  have hstatic : ∀ input ∈ op.inputs, input.shape.all Option.isSome := fun input hinput => by
    obtain ⟨check, hcheck⟩ := mapM_isOk.mp ⟨checks, hchecks⟩ input hinput
    simp only [checkBatchOperand, bind_unit_ok, unlessErr_ok] at hcheck
    exact hcheck.2
  have hinput : ∀ i < 2, (op.inputType i).shape.all Option.isSome := fun i hi => by
    have hlt : i < op.inputs.length := hinputs.symm ▸ hi
    rw [Operation.inputType, List.getD_eq_getElem _ _ hlt]
    exact hstatic _ (List.getElem_mem hlt)
  exact ⟨hmaps, hinput 0 (by decide), hinput 1 (by decide), hinit, hone, rfl⟩

/-- A slice of an operand is an entry of its batch. -/
theorem sliceBatch_is (value : Value op e) {v t : Tensor (Scalar F e)} (hv : ∀ s, value.Is run s ↔ s = v)
    (hstatic : value.shape.all Option.isSome) {index batch m n : Nat} (hindex : index < batch)
    (hshape : v.shape = [batch, m, n]) : (sliceBatch value index).Is run t ↔
      t.shape = [m, n] ∧ ∀ i < m, ∀ j < n, t.elem [i, j] = v.elem [index, i, j] := by
  have htype : value.shape = [some batch, some m, some n] := by
    have := (((hv v).mpr rfl).fits).static hstatic
    rwa [hshape] at this
  have hslice : sliceBatch value index = .extractSlice [some m, some n] value (entrySlice index m n) := by
    simp only [sliceBatch, htype]
    rfl
  have hfits : FitsShape [some m, some n] t.shape ↔ t.shape = [m, n] := by
    constructor
    · intro h
      have hmap : [m, n].map some = t.shape.map some := h.static rfl
      exact (List.map_injective_iff.mpr (Option.some_injective _) hmap).symm
    · rintro h
      rw [h]
      exact .cons (.inr rfl) (.cons (.inr rfl) .nil)
  rw [hslice]
  constructor
  · rintro ⟨s, hs, htyped, hof⟩
    obtain rfl := (hv s).mp hs
    have ht := hfits.mp htyped
    exact ⟨ht, (entrySlice_of_iff hindex hshape ht).mp hof⟩
  · rintro ⟨ht, helem⟩
    exact ⟨v, (hv v).mpr rfl, hfits.mpr ht, (entrySlice_of_iff hindex hshape ht).mpr helem⟩

section Batch

variable (op run)

/-- The operands of a batch in a run. -/
structure BatchSizes (batch m n k : Nat) : Prop where
  lhs : (run.input 0).shape = [batch, m, k]
  rhs : (run.input 1).shape = [batch, k, n]
  init : (run.init 0).shape = [batch, m, n]

variable {op run}

/-- The products for one element of the result. -/
def terms (run : Run op) (fn : TypeFn) (k index i j : Nat) : List (Scalar F (op.initElement 0)) :=
  (List.range k).map fun t => product fn _ _ _ ((run.input 0).elem [index, i, t]) ((run.input 1).elem [index, t, j])

/-- One entry of a result is the product of the entries of the operands. -/
def EntryOf (run : Run op) (fn : TypeFn) (m n k index : Nat) (t : Tensor (Scalar F (op.initElement 0))) : Prop :=
  ∀ i < m, ∀ j < n, Reduces (add (op.initElement 0)) ((run.init 0).elem [index, i, j]) (terms run fn k index i j)
    (t.elem [index, i, j])

variable {batch m n k index : Nat}

/-- The matmul of the slices of one entry. -/
theorem entry_matmul {lhs : Tensor (Scalar F (op.inputElement 0))}
    {rhs : Tensor (Scalar F (op.inputElement 1))} {init part : Tensor (Scalar F (op.initElement 0))} {fn : TypeFn}
    (hlhs : lhs.shape = [m, k] ∧ ∀ i < m, ∀ t < k, lhs.elem [i, t] = (run.input 0).elem [index, i, t])
    (hrhs : rhs.shape = [k, n] ∧ ∀ t < k, ∀ j < n, rhs.elem [t, j] = (run.input 1).elem [index, t, j])
    (hinit : init.shape = [m, n] ∧ ∀ i < m, ∀ j < n, init.elem [i, j] = (run.init 0).elem [index, i, j]) :
    Matmul fn lhs rhs init part ↔ part.shape = [m, n] ∧ ∀ i < m, ∀ j < n, Reduces (add (op.initElement 0))
      ((run.init 0).elem [index, i, j]) (terms run fn k index i j) (part.elem [i, j]) := by
  have hterms : ∀ i < m, ∀ j < n, ((List.range k).map fun t => product fn _ _ (op.initElement 0) (lhs.elem [i, t])
      (rhs.elem [t, j])) = terms run fn k index i j := fun i hi j hj =>
    terms_congr fun t ht => by rw [hlhs.2 i hi t ht, hrhs.2 t ht j hj]
  rw [matmul_iff]
  constructor
  · rintro ⟨m', n', k', hlhs', -, hinit', hpart, hsums⟩
    obtain ⟨rfl, rfl⟩ : m = m' ∧ k = k' := by simpa using hlhs.1.symm.trans hlhs'
    obtain rfl : n = n' := by simpa using hinit.1.symm.trans hinit'
    refine ⟨hpart, fun i hi j hj => ?_⟩
    rw [← hterms i hi j hj, ← hinit.2 i hi j hj]
    exact hsums i hi j hj
  · rintro ⟨hpart, hsums⟩
    refine ⟨m, n, k, hlhs.1, hrhs.1, hinit.1, hpart, fun i hi j hj => ?_⟩
    rw [hterms i hi j hj, hinit.2 i hi j hj]
    exact hsums i hi j hj

variable (hsizes : BatchSizes op run batch m n k) (hlhs : (op.inputType 0).shape.all Option.isSome)
  (hrhs : (op.inputType 1).shape.all Option.isSome) (hinit : (op.initType 0).shape.all Option.isSome)

include hsizes hlhs hrhs hinit

/-- One step writes the product of one entry into the result so far. -/
theorem unbatchStep_is (hindex : index < batch) {destination : Value op (op.initElement 0)}
    (hdestination : ∀ d, destination.Is run d → d.shape = [batch, m, n])
    (t : Tensor (Scalar F (op.initElement 0))) : (unbatchStep op destination index).Is run t ↔
      t.shape = [batch, m, n] ∧ EntryOf run .castSigned m n k index t ∧ ∃ d, destination.Is run d ∧
        ∀ other < batch, other ≠ index → ∀ i < m, ∀ j < n, t.elem [other, i, j] = d.elem [other, i, j] := by
  have htype : (op.initType 0).shape = [some batch, some m, some n] := by
    have := (run.initFits 0).static hinit
    rwa [hsizes.init] at this
  have hstep : unbatchStep op destination index = .insertSlice (.matmul .castSigned
      (sliceBatch (.input 0) index) (sliceBatch (.input 1) index) (sliceBatch (.init 0) index)) destination
      (entrySlice index m n) := by
    simp only [unbatchStep, htype]
    rfl
  have hl : ∀ s, (sliceBatch (.input 0 : Value op _) index).Is run s ↔ s.shape = [m, k] ∧
      ∀ i < m, ∀ t < k, s.elem [i, t] = (run.input 0).elem [index, i, t] := fun _ =>
    sliceBatch_is (.input 0 : Value op _) (fun _ => Iff.rfl) hlhs hindex hsizes.lhs
  have hr : ∀ s, (sliceBatch (.input 1 : Value op _) index).Is run s ↔ s.shape = [k, n] ∧
      ∀ t < k, ∀ j < n, s.elem [t, j] = (run.input 1).elem [index, t, j] := fun _ =>
    sliceBatch_is (.input 1 : Value op _) (fun _ => Iff.rfl) hrhs hindex hsizes.rhs
  have hi : ∀ s, (sliceBatch (.init 0 : Value op _) index).Is run s ↔ s.shape = [m, n] ∧
      ∀ i < m, ∀ j < n, s.elem [i, j] = (run.init 0).elem [index, i, j] := fun _ =>
    sliceBatch_is (.init 0 : Value op _) (fun _ => Iff.rfl) hinit hindex hsizes.init
  rw [hstep]
  constructor
  · rintro ⟨part, d, ⟨l, r, i, hlhs', hrhs', hinit', hmatmul⟩, hd, hinserted⟩
    have hmatmul := (entry_matmul ((hl l).mp hlhs') ((hr r).mp hrhs') ((hi i).mp hinit')).mp hmatmul
    obtain ⟨hshape, hin, hout⟩ := (entrySlice_inserted_iff hindex (hdestination d hd) hmatmul.1).mp hinserted
    refine ⟨hshape, fun i hi j hj => ?_, d, hd, hout⟩
    rw [← hin i hi j hj]
    exact hmatmul.2 i hi j hj
  · rintro ⟨hshape, hentry, d, hd, hout⟩
    let entryOf {w : ElementType F} (s : Tensor (Scalar F w)) (rows columns : Nat) : Tensor (Scalar F w) :=
      ⟨[rows, columns], fun p => s.elem (index :: p)⟩
    refine ⟨entryOf t m n, d, ⟨entryOf (run.input 0) m k, entryOf (run.input 1) k n, entryOf (run.init 0) m n,
      ?_, ?_, ?_, ?_⟩, hd, ?_⟩
    · exact (hl _).mpr ⟨rfl, fun _ _ _ _ => rfl⟩
    · exact (hr _).mpr ⟨rfl, fun _ _ _ _ => rfl⟩
    · exact (hi _).mpr ⟨rfl, fun _ _ _ _ => rfl⟩
    · exact (entry_matmul ⟨rfl, fun _ _ _ _ => rfl⟩ ⟨rfl, fun _ _ _ _ => rfl⟩
        ⟨rfl, fun _ _ _ _ => rfl⟩).mpr ⟨rfl, hentry⟩
    · exact (entrySlice_inserted_iff hindex (hdestination d hd) rfl).mpr ⟨hshape, fun _ _ _ _ => rfl, hout⟩

/-- The values of a run of steps: what was written is the product, and the rest is the accumulator. -/
theorem unbatch_isRun {count : Nat} (hcount : count ≤ batch) {t : Tensor (Scalar F (op.initElement 0))}
    (h : ((List.range count).foldl (unbatchStep op) (.init 0)).Is run t) :
    t.shape = [batch, m, n] ∧ ∀ index < count, EntryOf run .castSigned m n k index t := by
  induction count generalizing t with
  | zero =>
    have h : t = run.init 0 := h
    exact ⟨h ▸ hsizes.init, fun _ h => absurd h (Nat.not_lt_zero _)⟩
  | succ count ih =>
    rw [List.range_succ, List.foldl_append] at h
    have hearlier := fun {d} => ih (t := d) (by omega)
    obtain ⟨hshape, hentry, d, hd, hout⟩ := (unbatchStep_is hsizes hlhs hrhs hinit (by omega)
      (fun d hd => (hearlier hd).1) t).mp h
    refine ⟨hshape, fun index hindex => ?_⟩
    rcases Nat.lt_or_ge index count with hlt | hge
    · intro i hi j hj
      rw [hout index (by omega) (by omega) i hi j hj]
      exact (hearlier hd).2 index hlt i hi j hj
    · obtain rfl : index = count := by omega
      exact hentry

/-- Some entries of one tensor and the other entries of the accumulator. -/
def writtenBefore (run : Run op) (count : Nat) (t : Tensor (Scalar F (op.initElement 0))) :
    Tensor (Scalar F (op.initElement 0)) where
  shape := (run.init 0).shape
  elem p := if p.getD 0 0 < count then t.elem p else (run.init 0).elem p

/-- What has the products as entries is reached, and so is each step on the way. -/
theorem unbatch_isReached {t : Tensor (Scalar F (op.initElement 0))}
    (hentries : ∀ index < batch, EntryOf run .castSigned m n k index t) {count : Nat} (hcount : count ≤ batch) :
    ((List.range count).foldl (unbatchStep op) (.init 0)).Is run (writtenBefore run count t) := by
  induction count with
  | zero => rfl
  | succ count ih =>
    rw [List.range_succ, List.foldl_append]
    refine (unbatchStep_is hsizes hlhs hrhs hinit (by omega)
      (fun d hd => (unbatch_isRun hsizes hlhs hrhs hinit (by omega) hd).1) _).mpr
      ⟨hsizes.init, ?_, _, ih (by omega), fun other hother hne i hi j hj => ?_⟩
    · intro i hi j hj
      have helem : (writtenBefore run (count + 1) t).elem [count, i, j] = t.elem [count, i, j] :=
        if_pos (Nat.lt_succ_self count)
      rw [helem]
      exact hentries count (by omega) i hi j hj
    · by_cases hlt : other < count
      · exact (if_pos (show other < count + 1 by omega)).trans (if_pos hlt).symm
      · exact (if_neg (show ¬ other < count + 1 by omega)).trans (if_neg hlt).symm

/-- **The pattern gives the results of the batch that casts its operands as signed.** -/
theorem unbatch_is (hpos : 0 < batch) (t : Tensor (Scalar F (op.initElement 0))) :
    ((List.range batch).foldl (unbatchStep op) (.init 0)).Is run t ↔
      BatchMatmul .castSigned (run.input 0) (run.input 1) (run.init 0) t batchMatmulMaps := by
  rw [batchMatmul_iff hsizes.lhs hsizes.rhs hsizes.init]
  constructor
  · exact fun h => unbatch_isRun hsizes hlhs hrhs hinit le_rfl h
  · rintro ⟨hshape, hentries⟩
    obtain ⟨count, rfl⟩ : ∃ count, batch = count + 1 := ⟨batch - 1, by omega⟩
    rw [List.range_succ, List.foldl_append]
    refine (unbatchStep_is hsizes hlhs hrhs hinit (by omega)
      (fun d hd => (unbatch_isRun hsizes hlhs hrhs hinit (by omega) hd).1) t).mpr
      ⟨hshape, hentries count (by omega), _, unbatch_isReached hsizes hlhs hrhs hinit hentries (by omega),
        fun other hother hne i hi j hj => ?_⟩
    exact (if_pos (show other < count by omega)).symm

end Batch

end IreeRocket.Plugin.Structural
