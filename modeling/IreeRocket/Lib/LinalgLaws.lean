import IreeRocket.Lib.Linalg

/-!
# Laws of the named operations

A product of a matrix and a vector is that of the matrix and the vector as a column or as a row, a batch of
products is one product for each entry of the batch, and a convolution commutes with a change of the order
of its dimensions.
-/

namespace IreeRocket.Linalg

variable {V : Type} {F : Floats} {a b c : ElementType F} {fn : TypeFn}

/-! ### Element by element -/

/-- A product of matrices. -/
theorem matmul_iff {lhs : Tensor (Scalar F a)} {rhs : Tensor (Scalar F b)} {init result : Tensor (Scalar F c)} :
    Matmul fn lhs rhs init result ↔ ∃ m n k, lhs.shape = [m, k] ∧ rhs.shape = [k, n] ∧ init.shape = [m, n] ∧
      result.shape = [m, n] ∧ ∀ i < m, ∀ j < n, Reduces (add c) (init.elem [i, j])
        ((List.range k).map fun t => product fn a b c (lhs.elem [i, t]) (rhs.elem [t, j]))
        (result.elem [i, j]) := by
  refine exists_congr fun m => exists_congr fun n => exists_congr fun k => ⟨fun h => ?_, fun h => ?_⟩
  · refine ⟨h.lhsShape, h.rhsShape, h.initShape, h.shape.trans h.initShape, fun i hi j hj => ?_⟩
    exact h.sums [i, j] (.cons hi (.cons hj .nil))
  · obtain ⟨hlhs, hrhs, hinit, hresult, hsums⟩ := h
    refine ⟨hlhs, hrhs, hinit, hresult.trans hinit.symm, ?_⟩
    refine forall_inBounds_cons.mpr fun i hi => forall_inBounds_cons.mpr fun j hj => ?_
    exact forall_inBounds_nil.mpr (hsums i hi j hj)

/-- A product of a matrix and a vector. -/
theorem matvec_iff {lhs : Tensor (Scalar F a)} {rhs : Tensor (Scalar F b)} {init result : Tensor (Scalar F c)} :
    Matvec fn lhs rhs init result ↔ ∃ m k, lhs.shape = [m, k] ∧ rhs.shape = [k] ∧ init.shape = [m] ∧
      result.shape = [m] ∧ ∀ i < m, Reduces (add c) (init.elem [i])
        ((List.range k).map fun t => product fn a b c (lhs.elem [i, t]) (rhs.elem [t])) (result.elem [i]) := by
  refine exists_congr fun m => exists_congr fun k => ⟨fun h => ?_, fun h => ?_⟩
  · refine ⟨h.lhsShape, h.rhsShape, h.initShape, h.shape.trans h.initShape, fun i hi => ?_⟩
    exact h.sums [i] (.cons hi .nil)
  · obtain ⟨hlhs, hrhs, hinit, hresult, hsums⟩ := h
    refine ⟨hlhs, hrhs, hinit, hresult.trans hinit.symm, ?_⟩
    exact forall_inBounds_cons.mpr fun i hi => forall_inBounds_nil.mpr (hsums i hi)

/-- A product of a vector and a matrix. -/
theorem vecmat_iff {lhs : Tensor (Scalar F a)} {rhs : Tensor (Scalar F b)} {init result : Tensor (Scalar F c)} :
    Vecmat fn lhs rhs init result ↔ ∃ n k, lhs.shape = [k] ∧ rhs.shape = [k, n] ∧ init.shape = [n] ∧
      result.shape = [n] ∧ ∀ j < n, Reduces (add c) (init.elem [j])
        ((List.range k).map fun t => product fn a b c (lhs.elem [t]) (rhs.elem [t, j])) (result.elem [j]) := by
  refine exists_congr fun n => exists_congr fun k => ⟨fun h => ?_, fun h => ?_⟩
  · refine ⟨h.lhsShape, h.rhsShape, h.initShape, h.shape.trans h.initShape, fun j hj => ?_⟩
    exact h.sums [j] (.cons hj .nil)
  · obtain ⟨hlhs, hrhs, hinit, hresult, hsums⟩ := h
    refine ⟨hlhs, hrhs, hinit, hresult.trans hinit.symm, ?_⟩
    exact forall_inBounds_cons.mpr fun j hj => forall_inBounds_nil.mpr (hsums j hj)

theorem terms_congr {α : Type} {k : Nat} {f g : Nat → α} (h : ∀ t < k, f t = g t) :
    (List.range k).map f = (List.range k).map g :=
  List.map_congr_left fun t ht => h t (List.mem_range.mp ht)

/-! ### Vectors -/

/-- The vector as a matrix with its elements along one dimension. -/
def Raised (dim : Nat) (matrix vector : Tensor V) : Prop :=
  ∃ n, vector.shape = [n] ∧ matrix.shape = [1, 1].set dim n ∧
    ∀ i < n, matrix.elem ([0, 0].set dim i) = vector.elem [i]

theorem Raised.shape {dim n : Nat} {matrix vector : Tensor V} (h : Raised dim matrix vector)
    (hvector : vector.shape = [n]) : matrix.shape = [1, 1].set dim n := by
  obtain ⟨n', hn', hshape, -⟩ := h
  obtain rfl : n = n' := by simpa using hvector.symm.trans hn'
  exact hshape

/-- The matrix of a vector. -/
def raise (dim : Nat) (vector : Tensor V) : Tensor V where
  shape := [1, 1].set dim (vector.shape.getD 0 0)
  elem p := vector.elem [p.getD dim 0]

theorem raised_raise {dim : Nat} (hdim : dim < 2) {vector : Tensor V} {n : Nat} (h : vector.shape = [n]) :
    Raised dim (raise dim vector) vector := by
  refine ⟨n, h, by rw [raise, h]; rfl, fun i _ => ?_⟩
  have hread : ([0, 0].set dim i).getD dim 0 = i := by
    rcases (show dim = 0 ∨ dim = 1 by omega) with rfl | rfl <;> rfl
  exact congrArg (fun place => vector.elem [place]) hread

/-- A vector is the one group of the dimensions of its matrix. -/
theorem grouped_iff_raised {dim n : Nat} (hdim : dim < 2) {matrix vector : Tensor V}
    (hmatrix : matrix.shape = [1, 1].set dim n) :
    Grouped [[0, 1]] matrix vector ↔ Raised dim matrix vector := by
  have hgroup : Grouped [[0, 1]] matrix vector ↔ vector.shape = [n] ∧
      ∀ i < n, matrix.elem ([0, 0].set dim i) = vector.elem [i] := by
    rcases (show dim = 0 ∨ dim = 1 by omega) with rfl | rfl <;>
    · simp only [Grouped, hmatrix, List.set_cons_zero, List.set_cons_succ, forall_inBounds_cons,
        forall_inBounds_nil]
      simp [gather, rowMajor]
  rw [hgroup]
  refine ⟨fun h => ⟨n, h.1, hmatrix, h.2⟩, fun h => ?_⟩
  obtain ⟨n', hvector, hmatrix', helem⟩ := h
  have hn : n' = n := by
    have := hmatrix'.symm.trans hmatrix
    rcases (show dim = 0 ∨ dim = 1 by omega) with rfl | rfl <;> simpa using this
  subst hn
  exact ⟨hvector, helem⟩

/-- **A matrix times a vector** is the matrix times the column. -/
theorem matmul_column {lhs : Tensor (Scalar F a)} {rhs column : Tensor (Scalar F b)}
    {init result initColumn resultColumn : Tensor (Scalar F c)} (hrhs : Raised 0 column rhs)
    (hinit : Raised 0 initColumn init) (hresult : Raised 0 resultColumn result) :
    Matmul fn lhs column initColumn resultColumn ↔ Matvec fn lhs rhs init result := by
  obtain ⟨k, hrhs, hcolumn, hrhsElem⟩ := hrhs
  obtain ⟨m, hinit, hinitColumn, hinitElem⟩ := hinit
  obtain ⟨m', hresult, hresultColumn, hresultElem⟩ := hresult
  simp only [List.set_cons_zero] at hcolumn hinitColumn hresultColumn hrhsElem hinitElem hresultElem
  have hterms : ∀ i, ((List.range k).map fun t => product fn a b c (lhs.elem [i, t]) (column.elem [t, 0])) =
      (List.range k).map fun t => product fn a b c (lhs.elem [i, t]) (rhs.elem [t]) := fun i =>
    terms_congr fun t ht => by rw [hrhsElem t ht]
  rw [matmul_iff, matvec_iff]
  constructor
  · rintro ⟨m₁, n₁, k₁, hlhs, hrhs', hinit', hresult', hsums⟩
    simp only [hcolumn, hinitColumn, hresultColumn, List.cons.injEq, and_true] at hrhs' hinit' hresult'
    obtain ⟨⟨rfl, rfl⟩, ⟨rfl, -⟩, ⟨rfl, -⟩⟩ := And.intro hrhs' (And.intro hinit' hresult')
    refine ⟨_, k, hlhs, hrhs, hinit, hresult, fun i hi => ?_⟩
    rw [← hterms, ← hinitElem i hi, ← hresultElem i hi]
    exact hsums i hi 0 Nat.one_pos
  · rintro ⟨m₁, k₁, hlhs, hrhs', hinit', hresult', hsums⟩
    simp only [hrhs, hinit, hresult, List.cons.injEq, and_true] at hrhs' hinit' hresult'
    obtain ⟨rfl, rfl, rfl⟩ := And.intro hrhs' (And.intro hinit' hresult')
    refine ⟨_, 1, k, hlhs, hcolumn, hinitColumn, hresultColumn, fun i hi j hj => ?_⟩
    obtain rfl : j = 0 := by omega
    rw [hterms, hinitElem i hi, hresultElem i hi]
    exact hsums i hi

/-- **A vector times a matrix** is the row times the matrix. -/
theorem matmul_row {lhs row : Tensor (Scalar F a)} {rhs : Tensor (Scalar F b)}
    {init result initRow resultRow : Tensor (Scalar F c)} (hlhs : Raised 1 row lhs)
    (hinit : Raised 1 initRow init) (hresult : Raised 1 resultRow result) :
    Matmul fn row rhs initRow resultRow ↔ Vecmat fn lhs rhs init result := by
  obtain ⟨k, hlhs, hrow, hlhsElem⟩ := hlhs
  obtain ⟨n, hinit, hinitRow, hinitElem⟩ := hinit
  obtain ⟨n', hresult, hresultRow, hresultElem⟩ := hresult
  simp only [List.set_cons_succ, List.set_cons_zero] at hrow hinitRow hresultRow hlhsElem hinitElem hresultElem
  have hterms : ∀ j, ((List.range k).map fun t => product fn a b c (row.elem [0, t]) (rhs.elem [t, j])) =
      (List.range k).map fun t => product fn a b c (lhs.elem [t]) (rhs.elem [t, j]) := fun j =>
    terms_congr fun t ht => by rw [hlhsElem t ht]
  rw [matmul_iff, vecmat_iff]
  constructor
  · rintro ⟨m₁, n₁, k₁, hlhs', hrhs, hinit', hresult', hsums⟩
    simp only [hrow, hinitRow, hresultRow, List.cons.injEq, and_true] at hlhs' hinit' hresult'
    obtain ⟨⟨rfl, rfl⟩, ⟨-, rfl⟩, ⟨-, rfl⟩⟩ := And.intro hlhs' (And.intro hinit' hresult')
    refine ⟨_, k, hlhs, hrhs, hinit, hresult, fun j hj => ?_⟩
    rw [← hterms, ← hinitElem j hj, ← hresultElem j hj]
    exact hsums 0 Nat.one_pos j hj
  · rintro ⟨n₁, k₁, hlhs', hrhs, hinit', hresult', hsums⟩
    simp only [hlhs, hinit, hresult, List.cons.injEq, and_true] at hlhs' hinit' hresult'
    obtain ⟨rfl, rfl, rfl⟩ := And.intro hlhs' (And.intro hinit' hresult')
    refine ⟨1, _, k, hrow, hrhs, hinitRow, hresultRow, fun i hi j hj => ?_⟩
    obtain rfl : i = 0 := by omega
    rw [hterms, hinitElem j hj, hresultElem j hj]
    exact hsums j hj

/-! ### Batches -/

/-- **A batch of products** is a product for each entry. -/
theorem batchMatmul_iff {lhs : Tensor (Scalar F a)} {rhs : Tensor (Scalar F b)}
    {init result : Tensor (Scalar F c)} {batch m n k : Nat} (hlhs : lhs.shape = [batch, m, k])
    (hrhs : rhs.shape = [batch, k, n]) (hinit : init.shape = [batch, m, n]) :
    BatchMatmul fn lhs rhs init result batchMatmulMaps ↔ result.shape = [batch, m, n] ∧
      ∀ index < batch, ∀ i < m, ∀ j < n, Reduces (add c) (init.elem [index, i, j])
        ((List.range k).map fun t => product fn a b c (lhs.elem [index, i, t]) (rhs.elem [index, t, j]))
        (result.elem [index, i, j]) := by
  constructor
  · rintro ⟨batch', m', n', k', h⟩
    have hsizes := h.lhsShape.symm.trans hlhs
    have hsizes' := h.rhsShape.symm.trans hrhs
    simp [gather, batchMatmulMaps] at hsizes hsizes'
    obtain ⟨⟨rfl, rfl, rfl⟩, -, -, rfl⟩ := And.intro hsizes hsizes'
    refine ⟨h.shape.trans hinit, fun index hindex i hi j hj => ?_⟩
    exact h.sums [index, i, j] (.cons hindex (.cons hi (.cons hj .nil)))
  · rintro ⟨hresult, hsums⟩
    refine ⟨batch, m, n, k, hlhs, hrhs, hinit, hresult.trans hinit.symm, ?_⟩
    refine forall_inBounds_cons.mpr fun index hindex => forall_inBounds_cons.mpr fun i hi =>
      forall_inBounds_cons.mpr fun j hj => ?_
    exact forall_inBounds_nil.mpr (hsums index hindex i hi j hj)

/-- The matrix that is one entry of a batch. -/
def entrySlice (index m n : Nat) : Slice := ⟨[index, 0, 0], [1, m, n], [1, 1, 1]⟩

theorem entrySlice_position (index m n i j : Nat) :
    (entrySlice index m n).position [0, i, j] = [index, i, j] := by
  simp [entrySlice, Slice.position]

theorem forall_entrySlice {index m n : Nat} {P : List Nat → Prop} :
    (∀ p, InBounds p (entrySlice index m n).sizes → P p) ↔ ∀ i < m, ∀ j < n, P [0, i, j] := by
  simp only [entrySlice, forall_inBounds_cons, forall_inBounds_nil, Nat.lt_one_iff, forall_eq]

theorem forall_matrix {m n : Nat} {P : List Nat → Prop} :
    (∀ p, InBounds p [m, n] → P p) ↔ ∀ i < m, ∀ j < n, P [i, j] := by
  simp only [forall_inBounds_cons, forall_inBounds_nil]

/-- A matrix is an entry of a batch if its elements are. -/
theorem entrySlice_of_iff {index batch m n : Nat} (hindex : index < batch) {part whole : Tensor V}
    (hwhole : whole.shape = [batch, m, n]) (hpart : part.shape = [m, n]) :
    (entrySlice index m n).Of part whole ↔ ∀ i < m, ∀ j < n, part.elem [i, j] = whole.elem [index, i, j] := by
  constructor
  · intro h i hi j hj
    rw [← entrySlice_position index m n]
    refine h.elem [i, j] ?_ [0, i, j] (.cons Nat.one_pos (.cons hi (.cons hj .nil)))
      (rowMajor_unit m n i j ▸ hpart ▸ rfl)
    rw [hpart]
    exact .cons hi (.cons hj .nil)
  · intro h
    refine ⟨forall_entrySlice.mpr fun i hi j hj => ?_, ?_, ?_⟩
    · rw [entrySlice_position, hwhole]
      exact .cons hindex (.cons hi (.cons hj .nil))
    · rw [hpart]
      rfl
    · rw [hpart]
      refine forall_matrix.mpr fun i hi j hj => forall_entrySlice.mpr fun i' hi' j' hj' hplace => ?_
      rw [entrySlice_position, h i hi j hj]
      obtain ⟨rfl, rfl⟩ := rowMajor_injective hj' hj ((rowMajor_unit m n i' j').symm.trans hplace)
      rfl

/-- A matrix is put into a batch by replacing its entry. -/
theorem entrySlice_inserted_iff {index batch m n : Nat} (hindex : index < batch) {part destination result : Tensor V}
    (hdestination : destination.shape = [batch, m, n]) (hpart : part.shape = [m, n]) :
    (entrySlice index m n).Inserted part destination result ↔ result.shape = [batch, m, n] ∧
      (∀ i < m, ∀ j < n, part.elem [i, j] = result.elem [index, i, j]) ∧
      ∀ other < batch, other ≠ index → ∀ i < m, ∀ j < n,
        result.elem [other, i, j] = destination.elem [other, i, j] := by
  constructor
  · intro h
    have hresult := h.shape.trans hdestination
    refine ⟨hresult, (entrySlice_of_iff hindex hresult hpart).mp h.part, fun other hother hne i hi j hj => ?_⟩
    refine h.rest _ ?_ (forall_entrySlice.mpr fun i' _ j' _ heq => hne ?_)
    · rw [hdestination]
      exact .cons hother (.cons hi (.cons hj .nil))
    · rw [entrySlice_position] at heq
      exact (List.cons.inj heq).1
  · rintro ⟨hresult, hin, hout⟩
    refine ⟨hresult.trans hdestination.symm, (entrySlice_of_iff hindex hresult hpart).mpr hin, ?_⟩
    rw [hdestination]
    refine forall_inBounds_cons.mpr fun other hother => forall_matrix.mpr fun i hi j hj hrest => ?_
    refine hout other hother (fun heq => ?_) i hi j hj
    have := forall_entrySlice.mp hrest i hi j hj
    rw [entrySlice_position, heq] at this
    exact this rfl

/-! ### Orders of dimensions -/

/-- The permutation of four dimensions, with its inverse. -/
structure Inverse (permutation inverse : List Nat) : Prop where
  perm : permutation.Perm (List.range 4)
  gather_gather : ∀ i₀ i₁ i₂ i₃ : Nat, gather inverse (gather permutation [i₀, i₁, i₂, i₃]) = [i₀, i₁, i₂, i₃]

/-- Channels to the end, and back. -/
theorem channelsLast_inverse : Inverse [0, 2, 3, 1] [0, 3, 1, 2] := ⟨by decide, fun _ _ _ _ => rfl⟩

/-- Channels from the end, and back. -/
theorem channelsFirst_inverse : Inverse [0, 3, 1, 2] [0, 2, 3, 1] := ⟨by decide, fun _ _ _ _ => rfl⟩

theorem filter_inverse : Inverse [2, 3, 1, 0] [3, 2, 0, 1] := ⟨by decide, fun _ _ _ _ => rfl⟩

theorem transposed_iff {source result : Tensor V} {n₀ n₁ n₂ n₃ : Nat} {permutation inverse : List Nat}
    (hinverse : Inverse permutation inverse) (h : source.shape = [n₀, n₁, n₂, n₃]) :
    Transposed permutation source result ↔
      result.shape = gather permutation [n₀, n₁, n₂, n₃] ∧ ∀ i₀ < n₀, ∀ i₁ < n₁, ∀ i₂ < n₂, ∀ i₃ < n₃,
        result.elem (gather permutation [i₀, i₁, i₂, i₃]) = source.elem [i₀, i₁, i₂, i₃] := by
  rw [Transposed, h]
  simp only [forall_inBounds_cons, forall_inBounds_nil]
  exact and_iff_right hinverse.perm

/-- The shape before the permutation. -/
theorem Transposed.sourceShape {source result : Tensor V} {permutation inverse : List Nat}
    (hinverse : Inverse permutation inverse) (h : Transposed permutation source result) :
    source.shape = gather inverse result.shape := by
  have hlength : source.shape.length = 4 := by
    have := h.1.length_eq
    rwa [hinverse.perm.length_eq, List.length_range, List.length_range, eq_comm] at this
  obtain ⟨n₀, n₁, n₂, n₃, hshape⟩ := List.length_eq_four.mp hlength
  rw [h.2.1, hshape, hinverse.gather_gather]

/-- The transposed tensor. -/
def transpose (permutation inverse : List Nat) (source : Tensor V) : Tensor V where
  shape := gather permutation source.shape
  elem p := source.elem (gather inverse p)

theorem transposed_transpose {source : Tensor V} {n₀ n₁ n₂ n₃ : Nat} {permutation inverse : List Nat}
    (hinverse : Inverse permutation inverse) (h : source.shape = [n₀, n₁, n₂, n₃]) :
    Transposed permutation source (transpose permutation inverse source) := by
  refine (transposed_iff hinverse h).mpr ⟨congrArg (gather permutation) h, fun i₀ _ i₁ _ i₂ _ i₃ _ => ?_⟩
  exact congrArg source.elem (hinverse.gather_gather i₀ i₁ i₂ i₃)

/-- Channels moved from the end to behind the batch are moved back. -/
theorem transposed_back {source result : Tensor V} {n h w c : Nat} (hsource : source.shape = [n, h, w, c]) :
    Transposed [0, 3, 1, 2] source result ↔ result.shape = [n, c, h, w] ∧ Transposed [0, 2, 3, 1] result source := by
  rw [transposed_iff channelsFirst_inverse hsource]
  refine and_congr_right fun hresult => ?_
  have hback : Transposed [0, 2, 3, 1] result source ↔ ∀ i < n, ∀ t < c, ∀ j < h, ∀ k < w,
      source.elem [i, j, k, t] = result.elem [i, t, j, k] := by
    rw [transposed_iff channelsLast_inverse hresult]
    exact and_iff_right hsource
  rw [hback]
  exact ⟨fun helem i hi t ht j hj k hk => (helem i hi j hj k hk t ht).symm,
    fun helem i hi j hj k hk t ht => (helem i hi t ht j hj k hk).symm⟩

/-- The taps of both layouts are the same, in another order. -/
theorem taps_perm (channels rows columns : Nat) :
    (nchwFchw.taps channels rows columns).Perm (nhwcHwcf.taps channels rows columns) := by
  have hrange : ∀ n : Nat, (List.range n).Nodup := fun _ => List.nodup_range
  refine (List.perm_ext_iff_of_nodup ?_ ?_).mpr fun tap => ?_
  · exact (hrange channels).product ((hrange rows).product (hrange columns))
  · refine List.Nodup.map (fun tap tap' h => ?_) ((hrange rows).product ((hrange columns).product (hrange channels)))
    simp only [Prod.mk.injEq] at h
    exact Prod.ext h.2.1 (Prod.ext h.2.2 h.1)
  · obtain ⟨channel, row, column⟩ := tap
    simp only [nchwFchw, nhwcHwcf, List.mem_map, Prod.exists, List.mem_product, List.mem_range, Prod.mk.injEq]
    constructor
    · rintro ⟨hchannel, hrow, hcolumn⟩
      exact ⟨row, column, channel, ⟨hrow, hcolumn, hchannel⟩, rfl, rfl, rfl⟩
    · rintro ⟨_, _, _, ⟨hrow, hcolumn, hchannel⟩, rfl, rfl, rfl⟩
      exact ⟨hchannel, hrow, hcolumn⟩

section Convolution

variable {x w xz wz y : ElementType F} {strides dilations : List Int} {s : ConvSizes}
  {input inputT : Tensor (Scalar F x)} {filter filterT : Tensor (Scalar F w)}
  {inputZero : Tensor (Scalar F xz)} {filterZero : Tensor (Scalar F wz)}
  {init initT result resultT : Tensor (Scalar F y)}

/-- The same terms in both layouts, for one output. -/
theorem conv_terms_perm
    (hrows : ∀ o < s.outRows, ∀ t < s.kernelRows,
      0 ≤ tapAt strides dilations 0 o t ∧ tapAt strides dilations 0 o t < s.inRows)
    (hcolumns : ∀ o < s.outColumns, ∀ t < s.kernelColumns,
      0 ≤ tapAt strides dilations 1 o t ∧ tapAt strides dilations 1 o t < s.inColumns)
    (hinput : ∀ n < s.batch, ∀ ch < s.inChannels, ∀ i < s.inRows, ∀ j < s.inColumns,
      inputT.elem (nhwcHwcf.input n ch i j) = input.elem (nchwFchw.input n ch i j))
    (hfilter : ∀ f < s.outChannels, ∀ ch < s.inChannels, ∀ i < s.kernelRows, ∀ j < s.kernelColumns,
      filterT.elem (nhwcHwcf.filter f ch i j) = filter.elem (nchwFchw.filter f ch i j))
    {n f i j : Nat} (hn : n < s.batch) (hf : f < s.outChannels) (hi : i < s.outRows) (hj : j < s.outColumns) :
    ((nchwFchw.taps s.inChannels s.kernelRows s.kernelColumns).map fun tap => quantizedProduct y
        (input.elem (nchwFchw.input n tap.1 (tapAt strides dilations 0 i tap.2.1).toNat
          (tapAt strides dilations 1 j tap.2.2).toNat)) (inputZero.elem [])
        (filter.elem (nchwFchw.filter f tap.1 tap.2.1 tap.2.2)) (filterZero.elem [])).Perm
      ((nhwcHwcf.taps s.inChannels s.kernelRows s.kernelColumns).map fun tap => quantizedProduct y
        (inputT.elem (nhwcHwcf.input n tap.1 (tapAt strides dilations 0 i tap.2.1).toNat
          (tapAt strides dilations 1 j tap.2.2).toNat)) (inputZero.elem [])
        (filterT.elem (nhwcHwcf.filter f tap.1 tap.2.1 tap.2.2)) (filterZero.elem [])) := by
  refine List.Perm.trans ((taps_perm _ _ _).map _) (List.Perm.of_eq (List.map_congr_left fun tap htap => ?_))
  have hmem : tap ∈ nchwFchw.taps s.inChannels s.kernelRows s.kernelColumns := (taps_perm _ _ _).mem_iff.mpr htap
  obtain ⟨ch, r, l⟩ := tap
  simp only [nchwFchw, List.mem_product, List.mem_range] at hmem
  obtain ⟨hch, hr, hl⟩ := hmem
  have hrow := (Int.toNat_lt (hrows i hi r hr).1).mpr (hrows i hi r hr).2
  have hcolumn := (Int.toNat_lt (hcolumns j hj l hl).1).mpr (hcolumns j hj l hl).2
  rw [hinput n hn ch hch _ hrow _ hcolumn, hfilter f hf ch hch r hr l hl]

/-- **A convolution commutes with the transpositions** of its operands and its result. -/
theorem quantizedConv_transposed (hinput : Transposed [0, 2, 3, 1] input inputT)
    (hfilter : Transposed [2, 3, 1, 0] filter filterT) (hinit : Transposed [0, 2, 3, 1] init initT)
    (hresult : Transposed [0, 2, 3, 1] result resultT)
    (hinputShape : input.shape = nchwFchw.input s.batch s.inChannels s.inRows s.inColumns)
    (hfilterShape : filter.shape = nchwFchw.filter s.outChannels s.inChannels s.kernelRows s.kernelColumns)
    (hinitShape : init.shape = nchwFchw.output s.batch s.outChannels s.outRows s.outColumns)
    (hresultShape : result.shape = init.shape) :
    QuantizedConv nhwcHwcf strides dilations s inputT filterT inputZero filterZero initT resultT ↔
      QuantizedConv nchwFchw strides dilations s input filter inputZero filterZero init result := by
  obtain ⟨hinputT, hinputElem⟩ := (transposed_iff channelsLast_inverse hinputShape).mp hinput
  obtain ⟨hfilterT, hfilterElem⟩ := (transposed_iff filter_inverse hfilterShape).mp hfilter
  obtain ⟨hinitT, hinitElem⟩ := (transposed_iff channelsLast_inverse hinitShape).mp hinit
  obtain ⟨hresultT, hresultElem⟩ := (transposed_iff channelsLast_inverse (hresultShape.trans hinitShape)).mp hresult
  have hinitElem : ∀ n < s.batch, ∀ f < s.outChannels, ∀ i < s.outRows, ∀ j < s.outColumns,
      initT.elem (nhwcHwcf.output n f i j) = init.elem (nchwFchw.output n f i j) := hinitElem
  have hresultElem : ∀ n < s.batch, ∀ f < s.outChannels, ∀ i < s.outRows, ∀ j < s.outColumns,
      resultT.elem (nhwcHwcf.output n f i j) = result.elem (nchwFchw.output n f i j) := hresultElem
  constructor
  · intro h
    refine ⟨hinputShape, hfilterShape, hinitShape, hresultShape, h.rows, h.columns, fun n hn f hf i hi j hj => ?_⟩
    have := h.sums n hn f hf i hi j hj
    rw [Reduces.perm (conv_terms_perm h.rows h.columns hinputElem hfilterElem hn hf hi hj)]
    rwa [← hinitElem n hn f hf i hi j hj, ← hresultElem n hn f hf i hi j hj]
  · intro h
    refine ⟨hinputT, hfilterT, hinitT, hresultT.trans hinitT.symm, h.rows, h.columns, fun n hn f hf i hi j hj => ?_⟩
    have := h.sums n hn f hf i hi j hj
    rw [Reduces.perm (conv_terms_perm h.rows h.columns hinputElem hfilterElem hn hf hi hj)] at this
    rwa [← hinitElem n hn f hf i hi j hj, ← hresultElem n hn f hf i hi j hj] at this

end Convolution

end IreeRocket.Linalg
