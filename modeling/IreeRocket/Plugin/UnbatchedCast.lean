import IreeRocket.Plugin.StructuralEquivalence

/-!
# The cast of a batch is dropped

The products of the entries of a batch cast their operands as signed. A batch that casts them as unsigned has
the results of its entries exactly where no product depends on the cast, or there are no products. The other
rewrites preserve every operation that they accept.
-/

namespace IreeRocket.Plugin.Structural

open Linalg

variable {F : Floats} {op : Operation F} {run : Run op}

/-! ### The cast of a batch -/

/-- Both casts of a batch have the same results where no product depends on them. -/
theorem batch_cast_iff {batch m n k : Nat} (hsizes : BatchSizes op run batch m n k)
    (h : m = 0 ∨ n = 0 ∨ k = 0 ∨ SameProducts (op.inputElement 0) (op.inputElement 1) (op.initElement 0))
    (t : Tensor (Scalar F (op.initElement 0))) :
    BatchMatmul .castSigned (run.input 0) (run.input 1) (run.init 0) t batchMatmulMaps ↔
      BatchMatmul .castUnsigned (run.input 0) (run.input 1) (run.init 0) t batchMatmulMaps := by
  have hentry : ∀ i < m, ∀ j < n, ∀ index, terms run .castSigned k index i j = terms run .castUnsigned k index i j := by
    intro i hi j hj index
    refine terms_congr fun t ht => ?_
    rcases h with rfl | rfl | rfl | h
    · exact absurd hi (Nat.not_lt_zero i)
    · exact absurd hj (Nat.not_lt_zero j)
    · exact absurd ht (Nat.not_lt_zero t)
    · exact (h _ _).symm
  rw [batchMatmul_iff hsizes.lhs hsizes.rhs hsizes.init, batchMatmul_iff hsizes.lhs hsizes.rhs hsizes.init]
  refine and_congr_right fun _ => forall_congr' fun index => forall_congr' fun _ => forall_congr' fun i =>
    forall_congr' fun hi => forall_congr' fun j => forall_congr' fun hj => ?_
  exact iff_of_eq (congrArg (fun sums => Reduces _ _ sums _) (hentry i hi j hj index))

/-- Every run has the operands of the same sizes. -/
theorem batchSizes_of (hlhs : (op.inputType 0).shape.all Option.isSome)
    (hrhs : (op.inputType 1).shape.all Option.isSome) (hinit : (op.initType 0).shape.all Option.isSome)
    {run run' : Run op} {batch m n k : Nat} (h : BatchSizes op run batch m n k) : BatchSizes op run' batch m n k := by
  have hsame : ∀ {shape : TypeShape} {sizes sizes' : List Nat}, shape.all Option.isSome → FitsShape shape sizes →
      FitsShape shape sizes' → sizes' = sizes := fun hstatic hfits hfits' =>
    List.map_injective_iff.mpr (Option.some_injective _) ((hfits'.static hstatic).symm.trans (hfits.static hstatic))
  exact ⟨(hsame hlhs (run.inputFits 0) (run'.inputFits 0)).trans h.lhs,
    (hsame hrhs (run.inputFits 1) (run'.inputFits 1)).trans h.rhs,
    (hsame hinit (run.initFits 0) (run'.initFits 0)).trans h.init⟩

/-- A run with other elements. -/
def Run.refill (run : Run op) (lhs : List Nat → Scalar F (op.inputElement 0))
    (rhs : List Nat → Scalar F (op.inputElement 1)) (accumulator : Scalar F (op.initElement 0)) : Run op where
  input := Function.update (Function.update run.input 0 ⟨(run.input 0).shape, lhs⟩) 1 ⟨(run.input 1).shape, rhs⟩
  init := Function.update run.init 0 ⟨(run.init 0).shape, fun _ => accumulator⟩
  inputFits i := by
    rcases eq_or_ne i 1 with rfl | hone
    · rw [Function.update_self]
      exact run.inputFits 1
    rw [Function.update_of_ne hone]
    rcases eq_or_ne i 0 with rfl | hzero
    · rw [Function.update_self]
      exact run.inputFits 0
    · rw [Function.update_of_ne hzero]
      exact run.inputFits i
  initFits i := by
    rcases eq_or_ne i 0 with rfl | hzero
    · rw [Function.update_self]
      exact run.initFits 0
    · rw [Function.update_of_ne hzero]
      exact run.initFits i

/-- **Where a product depends on the cast, so does some result** of a batch that has products. -/
theorem batch_cast_matters {batch m n k : Nat} (hsizes : BatchSizes op run batch m n k) (hbatch : 0 < batch)
    (hm : 0 < m) (hn : 0 < n) (hk : 0 < k)
    (h : ¬ SameProducts (op.inputElement 0) (op.inputElement 1) (op.initElement 0)) :
    ∃ (run' : Run op) (result : _), BatchSizes op run' batch m n k ∧
      BatchMatmul .castUnsigned (run'.input 0) (run'.input 1) (run'.init 0) result batchMatmulMaps ∧
      ¬ BatchMatmul .castSigned (run'.input 0) (run'.input 1) (run'.init 0) result batchMatmulMaps := by
  obtain ⟨x, y, x', y', hseparated⟩ := products_separated h
  obtain ⟨accumulator, hseparated⟩ := hseparated (k - 1)
  -- the product that tells the casts apart is the first of the first element
  let lhs (p : List Nat) := if p = [0, 0, 0] then x else x'
  let rhs (p : List Nat) := if p = [0, 0, 0] then y else y'
  let run' := run.refill lhs rhs accumulator
  have hsizes' : BatchSizes op run' batch m n k := ⟨hsizes.lhs, hsizes.rhs, hsizes.init⟩
  have hterms : ∀ fn, terms run' fn k 0 0 0 = product fn _ _ _ x y :: List.replicate (k - 1) (product fn _ _ _ x' y') := by
    intro fn
    obtain ⟨k, rfl⟩ : ∃ k', k = k' + 1 := ⟨k - 1, by omega⟩
    have hrest : ∀ t < k, product fn _ _ (op.initElement 0) (lhs [0, 0, t + 1]) (rhs [0, t + 1, 0]) =
        product fn _ _ _ x' y' := fun t _ => by
      rw [show lhs [0, 0, t + 1] = x' from if_neg (by simp), show rhs [0, t + 1, 0] = y' from if_neg (by simp)]
    calc terms run' fn (k + 1) 0 0 0
        = (List.range (k + 1)).map fun t => product fn _ _ _ (lhs [0, 0, t]) (rhs [0, t, 0]) := rfl
      _ = product fn _ _ _ x y :: (List.range k).map fun _ => product fn _ _ _ x' y' := by
        rw [List.range_succ_eq_map, List.map_cons, List.map_map]
        exact congrArg _ (terms_congr hrest)
      _ = _ := by rw [List.map_const', List.length_range, Nat.add_sub_cancel]
  let result : Tensor (Scalar F (op.initElement 0)) :=
    ⟨[batch, m, n], fun p => (terms run' .castUnsigned k (p.getD 0 0) (p.getD 1 0) (p.getD 2 0)).foldl
      (add (op.initElement 0)) ((run'.init 0).elem p)⟩
  refine ⟨run', result, hsizes', (batchMatmul_iff hsizes'.lhs hsizes'.rhs hsizes'.init).mpr
    ⟨rfl, fun index _ i _ j _ => Reduces.inOrder _ _ _⟩, fun hsigned => ?_⟩
  obtain ⟨-, hentries⟩ := (batchMatmul_iff hsizes'.lhs hsizes'.rhs hsizes'.init).mp hsigned
  have hfirst : Reduces (add (op.initElement 0)) ((run'.init 0).elem [0, 0, 0]) (terms run' .castSigned k 0 0 0)
    (result.elem [0, 0, 0]) := hentries 0 hbatch 0 hm 0 hn
  have horiginal : Reduces (add (op.initElement 0)) ((run'.init 0).elem [0, 0, 0])
    (terms run' .castUnsigned k 0 0 0) (result.elem [0, 0, 0]) := Reduces.inOrder _ _ _
  rw [hterms] at hfirst horiginal
  exact hseparated _ horiginal hfirst

/-! ### The operations that are preserved -/

/-- The cast of a batch is the one of its entries, or it does not matter: there are no products, or none that
depends on it. -/
def CastKept (op : Operation F) : Prop :=
  match op.name with
  | .batchMatmul _ cast => cast = .castSigned ∨ some 0 ∈ (op.inputType 0).shape ∨ some 0 ∈ (op.inputType 1).shape ∨
    SignFree (op.inputElement 0) (op.inputElement 1) (op.initElement 0)
  | _ => True

/-- The sizes of a batch that is accepted are those of its types. -/
theorem empty_iff {batch m n k : Nat} (hsizes : BatchSizes op run batch m n k) (hbatch : 0 < batch)
    (hlhs : (op.inputType 0).shape.all Option.isSome) (hrhs : (op.inputType 1).shape.all Option.isSome) :
    (some 0 ∈ (op.inputType 0).shape ∨ some 0 ∈ (op.inputType 1).shape) ↔ m = 0 ∨ n = 0 ∨ k = 0 := by
  rw [(run.inputFits 0).static hlhs, (run.inputFits 1).static hrhs, hsizes.lhs, hsizes.rhs]
  simp only [List.map_cons, List.map_nil, List.mem_cons, Option.some.injEq, List.not_mem_nil, or_false]
  omega

/-- A batch that is accepted is preserved if its cast is. -/
theorem batch_preserved_iff {maps : Contraction} {cast : TypeFn} (hname : op.name = .batchMatmul maps cast)
    (hverified : op.Verified) {value : Value op (op.initElement 0)} (h : unbatchMatmul maps op = .ok value) :
    (∀ (run : Run op) (result : _), value.Is run result ↔
      BatchMatmul cast (run.input 0) (run.input 1) (run.init 0) result maps) ↔ CastKept op := by
  obtain ⟨rfl, hlhs, hrhs, hinit, hbatch, rfl⟩ := unbatchMatmul_ok h
  -- the sizes, which are those of every run
  obtain ⟨run, result, hresult⟩ := hverified
  simp only [Operation.Result, hname] at hresult
  obtain ⟨batch, m, n, k, hresult⟩ := hresult
  have hsizes : BatchSizes op run batch m n k := ⟨hresult.lhsShape, hresult.rhsShape, hresult.initShape⟩
  have hcount : (dimSize (op.initType 0).shape 0).getD 0 = batch := by
    rw [(run.initFits 0).static hinit, hsizes.init]
    rfl
  rw [hcount] at hbatch ⊢
  have hpos : 0 < batch := by omega
  have hsigned : ∀ (run : Run op) (result : Tensor (Scalar F (op.initElement 0))),
      ((List.range batch).foldl (unbatchStep op) (.init 0)).Is run result ↔
        BatchMatmul .castSigned (run.input 0) (run.input 1) (run.init 0) result batchMatmulMaps := fun _ _ =>
    unbatch_is (batchSizes_of hlhs hrhs hinit hsizes) hlhs hrhs hinit hpos _
  have hkept : CastKept op ↔ cast = .castSigned ∨ m = 0 ∨ n = 0 ∨ k = 0 ∨
      SameProducts (op.inputElement 0) (op.inputElement 1) (op.initElement 0) := by
    simp only [CastKept, hname]
    rw [← signFree_iff, ← or_assoc (a := some 0 ∈ _), empty_iff hsizes hpos hlhs hrhs, or_assoc, or_assoc]
  rw [hkept]
  cases cast with
  | castSigned => exact iff_of_true hsigned (.inl rfl)
  | castUnsigned =>
    constructor
    · intro hall
      by_contra! hnot
      obtain ⟨-, hm, hn, hk, hproducts⟩ := hnot
      obtain ⟨run', result', -, hunsigned, hnone⟩ := batch_cast_matters hsizes hpos (Nat.pos_of_ne_zero hm)
        (Nat.pos_of_ne_zero hn) (Nat.pos_of_ne_zero hk) hproducts
      exact hnone ((hsigned run' result').mp ((hall run' result').mpr hunsigned))
    · intro h run' result'
      rw [hsigned]
      exact batch_cast_iff (batchSizes_of hlhs hrhs hinit hsizes) (h.resolve_left (by decide)) result'

/-- **A structural rewrite preserves the results of an operation**, for all operands and accumulators, if and
only if it keeps the cast. -/
theorem rewrite_preserves_iff (op : Operation F) (hverified : op.Verified) {value : Value op (op.initElement 0)}
    (h : rewrite op = .ok value) :
    (∀ (run : Run op) (result : _), value.Is run result ↔ op.Result run result) ↔ CastKept op := by
  cases hname : op.name with
  | matvec =>
    simp only [rewrite, hname] at h
    simp only [Operation.Result, CastKept, hname]
    exact iff_of_true (fun run result => matvec_preserved h result) trivial
  | vecmat =>
    simp only [rewrite, hname] at h
    simp only [Operation.Result, CastKept, hname]
    exact iff_of_true (fun run result => vecmat_preserved h result) trivial
  | batchMatmul maps cast =>
    simp only [rewrite, hname] at h
    simp only [Operation.Result, hname]
    exact batch_preserved_iff hname hverified h
  | conv2dNchwFchwQ strides dilations =>
    simp only [rewrite, hname] at h
    simp only [Operation.Result, CastKept, hname]
    exact iff_of_true (fun run result => quantizedConv_preserved h result) trivial

/-! ### An unsigned batch -/

/-- Floats that are the two zeros only. -/
def zerosOnly : Floats where
  Format := Unit
  Value _ := Bool
  add x y := x || y
  sub x y := x || !y
  mul x y := x == y
  convert _ x := x
  ofSigned _ _ _ := true
  ofUnsigned _ _ _ := true
  toSigned _ _ := 0
  toUnsigned _ _ := 0
  posZero _ := true
  negZero _ := false
  zeros_ne _ := by decide
  negZero_add _ := rfl
  posZero_add {_ v} h := by
    cases v with
    | false => exact absurd rfl h
    | true => rfl
  add_posZero {_ v} h := by
    cases v with
    | false => exact absurd rfl h
    | true => rfl
  posZero_add_negZero _ := rfl
  posZero_mul _ := rfl
  convert_posZero _ _ := rfl
  ofSigned_zero _ _ := rfl
  ofUnsigned_zero _ _ := rfl
  toSigned_posZero _ _ := rfl
  toUnsigned_posZero _ _ := rfl

/-- Two products of one `i8` each, unsigned, in an `i32`. -/
def unsignedBatch : Operation zerosOnly where
  name := .batchMatmul batchMatmulMaps .castUnsigned
  inputs := [.rankedTensor [some 2, some 1, some 1] (.integer 8), .rankedTensor [some 2, some 1, some 1] (.integer 8)]
  inits := [.rankedTensor [some 2, some 1, some 1] (.integer 32)]

def unsignedMatmuls : Value unsignedBatch (unsignedBatch.initElement 0) :=
  (List.range 2).foldl (unbatchStep unsignedBatch) (.init 0)

theorem rewrite_unsignedBatch : rewrite unsignedBatch = .ok unsignedMatmuls := rfl

/-- The operands are 255 and 1, and the accumulator is zero. -/
def unsignedRun : Run unsignedBatch where
  input
    | 0 => ⟨[2, 1, 1], fun _ => 255#8⟩
    | 1 => ⟨[2, 1, 1], fun _ => 1#8⟩
    | _ + 2 => ⟨[], fun _ => 0#0⟩
  init
    | 0 => ⟨[2, 1, 1], fun _ => 0#32⟩
    | _ + 1 => ⟨[], fun _ => 0#0⟩
  inputFits
    | 0 => .cons (.inr rfl) (.cons (.inr rfl) (.cons (.inr rfl) .nil))
    | 1 => .cons (.inr rfl) (.cons (.inr rfl) (.cons (.inr rfl) .nil))
    | _ + 2 => .nil
  initFits
    | 0 => .cons (.inr rfl) (.cons (.inr rfl) (.cons (.inr rfl) .nil))
    | _ + 1 => .nil

/-- Each product is 255. -/
def unsignedResult : Tensor (Scalar zerosOnly (unsignedBatch.initElement 0)) := ⟨[2, 1, 1], fun _ => 255#32⟩

theorem unsignedBatch_sizes : BatchSizes unsignedBatch unsignedRun 2 1 1 1 := ⟨rfl, rfl, rfl⟩

theorem unsignedBatch_result : unsignedBatch.Result unsignedRun unsignedResult := by
  have hsums : BatchMatmul .castUnsigned (unsignedRun.input 0) (unsignedRun.input 1) (unsignedRun.init 0)
      unsignedResult batchMatmulMaps := by
    refine (batchMatmul_iff rfl rfl rfl).mpr ⟨rfl, fun index _ i _ j _ => integer_reduces_iff.mpr ?_⟩
    have hsum : 255#32 = integerAdd 0#32 (BitVec.mul (BitVec.setWidth 32 255#8) (BitVec.setWidth 32 1#8)) := by
      decide
    exact hsum
  exact hsums

/-- **The matmuls read 255 as -1.** -/
theorem unsigned_batch_misread : rewrite unsignedBatch = .ok unsignedMatmuls ∧
    unsignedBatch.Result unsignedRun unsignedResult ∧ ¬ unsignedMatmuls.Is unsignedRun unsignedResult := by
  refine ⟨rewrite_unsignedBatch, unsignedBatch_result, fun h => ?_⟩
  have hsigned := (unbatch_is unsignedBatch_sizes rfl rfl rfl (by decide) unsignedResult).mp h
  obtain ⟨-, hentries⟩ := (batchMatmul_iff rfl rfl rfl).mp hsigned
  have hsum := integer_reduces_iff.mp (hentries 0 (by decide) 0 (by decide) 0 (by decide))
  have hvalues : (255#32 : BitVec 32) = 4294967295#32 := hsum
  exact absurd hvalues (by decide)

/-- The unsigned batch is preserved if and only if its cast is kept, and it is not. -/
theorem rewrite_preserves_iff_unsigned :
    (∀ (run : Run unsignedBatch) (result : _), unsignedMatmuls.Is run result ↔ unsignedBatch.Result run result) ↔
      CastKept unsignedBatch :=
  rewrite_preserves_iff unsignedBatch ⟨unsignedRun, unsignedResult, unsignedBatch_result⟩ rewrite_unsignedBatch

end IreeRocket.Plugin.Structural
