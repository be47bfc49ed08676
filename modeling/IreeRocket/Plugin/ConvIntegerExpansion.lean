import Mathlib.Data.Option.Basic
import IreeRocket.Plugin.ConvIntegerMeaning

/-!
# The expansion computes ConvInteger

What the pass reads of the attributes is what ONNX says of them: the kernel is the weight's, the padding is
that of `auto_pad`. The list it pads by has the amounts of each axis where torch looks for them. The value
it emits is then ConvInteger's at every output.
-/

namespace IreeRocket.Plugin.ConvInteger

open Spatial

variable {n : Nat} {op : Operator}

/-! ### Attributes -/

theorem mapM_range {β : Type} {f : Nat → Option β} {k : Nat} {out : List β}
    (h : (List.range k).mapM f = some out) : out.length = k ∧ ∀ i < k, f i = out[i]? := by
  have hmap := mapM_some_iff.mp h
  have hlength := congrArg List.length hmap
  rw [List.length_map, List.length_map, List.length_range] at hlength
  refine ⟨hlength.symm, fun i hi => ?_⟩
  have hvalue := congrArg (·[i]?) hmap
  simp only [List.getElem?_map, List.getElem?_range hi, Option.map_some] at hvalue
  rw [List.getElem?_eq_getElem (hlength ▸ hi), Option.map_some] at hvalue
  rw [List.getElem?_eq_getElem (hlength ▸ hi)]
  exact Option.some.inj hvalue

theorem getD_of_getElem? {l : List Int} {i : Nat} {v : Int} (h : l[i]? = some v) : l.getD i 0 = v := by
  rw [List.getD_eq_getElem?_getD, h, Option.getD_some]

/-- **The kernel that is read is the weight's.** -/
theorem kernelOf_eq (run : Run op n) {weightSizes kernel : List Int} (hfits : Fits weightSizes run.weight)
    (h : kernelOf op n weightSizes = some kernel) :
    kernel.length = n ∧ ∀ i : Fin n, axisOf kernel i = run.weight.extent i := by
  obtain ⟨hlength, hvalues⟩ := mapM_range h
  refine ⟨hlength, fun i => getD_of_getElem? ?_⟩
  rw [← hvalues i i.isLt]
  rcases hfits.axes i with hsize | hsize
  · by_cases hattr : (getIntArrayAttr op "torch.onnx.kernel_shape").length = n
    · have hne : getIntArrayAttr op "torch.onnx.kernel_shape" ≠ [] := fun hnil => by
        rw [hnil, List.length_nil] at hattr
        exact absurd i.isLt (by omega)
      simp only [hsize, hattr, ne_eq, not_true_eq_false, if_false]
      exact congrArg some (run.kernelShape hne i)
    · have := hvalues i i.isLt
      simp only [hsize, hattr, ne_eq, not_true_eq_false, not_false_eq_true, if_false, if_true] at this
      rw [eq_comm, List.getElem?_eq_none_iff, hlength] at this
      exact absurd i.isLt (by omega)
  · have hknown : weightSizes.getD (2 + i) 0 ≠ unknownSize := by
      rw [hsize]
      unfold unknownSize
      omega
    rw [if_pos hknown, hsize]

theorem onesOr_pos {values : List Int} (h : ∀ v ∈ values, 0 < v)
    (hlength : (onesOr values n).length = n) (i : Fin n) : 0 < axisOf (onesOr values n) i := by
  have hmem : ∀ v ∈ onesOr values n, 0 < v := by
    unfold onesOr
    split_ifs
    · exact fun v hv => (List.eq_of_mem_replicate hv).symm ▸ Int.one_pos
    · exact h
  have hi : (i : Nat) < (onesOr values n).length := by rw [hlength]; exact i.isLt
  rw [axisOf, getD_of_getElem? (List.getElem?_eq_getElem hi)]
  exact hmem _ (List.getElem_mem hi)

/-! ### Padding -/

/-- **The amounts of an axis under `SAME_UPPER` and `SAME_LOWER`.** -/
theorem samePads_padded {autoPad : String} {a : Axis} (hkernel : 0 < a.kernel) (hstride : 0 < a.stride)
    (hdilation : 0 < a.dilation)
    (h : samePads autoPad a.extent a.kernel a.stride a.dilation = some (a.before, a.after)) :
    SamePadded (autoPad = "SAME_UPPER") a := by
  have hreach : 0 < Axis.reach a.kernel a.dilation := by
    have hk : 0 ≤ (a.kernel - 1 : Int) * a.dilation := mul_nonneg (by omega) hdilation.le
    unfold Axis.reach
    omega
  have hknown : ¬ (a.extent : Int) = unknownSize := by
    unfold unknownSize
    omega
  have hoverhang : (((a.extent : Int) + a.stride - 1).tdiv a.stride - 1) * a.stride +
      ((a.kernel - 1) * a.dilation + 1) - a.extent =
      Axis.overhang a.extent a.kernel a.stride a.dilation := by
    rw [Int.tdiv_eq_ediv_of_nonneg (by omega)]
    rfl
  simp only [samePads, if_neg hknown, hoverhang] at h
  have hmax := le_max_left 0 (Axis.overhang a.extent a.kernel a.stride a.dilation)
  rw [Int.tdiv_eq_ediv_of_nonneg hmax] at h
  generalize hneeded : max 0 (Axis.overhang a.extent a.kernel a.stride a.dilation) = needed at h hmax
  have hamounts : a.before + a.after = needed ∧ 0 ≤ a.before ∧ 0 ≤ a.after ∧ (a.after = a.before ∨
      if autoPad = "SAME_UPPER" then a.after = a.before + 1 else a.before = a.after + 1) := by
    split_ifs at h ⊢ with hupper
    · obtain ⟨hbefore, hafter⟩ := Prod.mk.inj (Option.some.inj h)
      omega
    · obtain ⟨hbefore, hafter⟩ := Prod.mk.inj (Option.some.inj h)
      omega
  obtain ⟨htotal, hbefore, hafter, hsurplus⟩ := hamounts
  refine ⟨Axis.outExtent_overhang hstride hreach (htotal.trans hneeded.symm), ⟨hbefore, hafter⟩,
    fun before after hb ha hout => ?_, by simpa using hsurplus⟩
  rw [htotal, ← hneeded]
  exact Axis.overhang_le (a := { a with before, after }) hstride (add_nonneg hb ha) hout

/-- The padding of an axis in ONNX's list. -/
def padsBefore (pads : List Int) (i : Fin n) : Int := pads.getD i 0

def padsAfter (pads : List Int) (i : Fin n) : Int := pads.getD (n + i) 0

/-- **The padding that is resolved is what the attributes ask for.** -/
theorem resolvePads_padded (run : Run op n) {inputSizes kernel strides dilations pads : List Int}
    (hinput : Fits inputSizes run.input) (hlength : kernel.length = n)
    (hkernel : ∀ i : Fin n, axisOf kernel i = run.weight.extent i)
    (hstrides : strides = onesOr (getIntArrayAttr op "torch.onnx.strides") n)
    (hdilations : dilations = onesOr (getIntArrayAttr op "torch.onnx.dilations") n)
    (hstride : ∀ i : Fin n, 0 < axisOf strides i) (hdilation : ∀ i : Fin n, 0 < axisOf dilations i)
    (h : resolvePads op inputSizes kernel strides dilations = some pads) :
    Padded op (run.axes (padsBefore pads) (padsAfter pads)) := by
  subst hstrides hdilations
  have hzeros : ∀ i : Fin n, padsBefore (List.replicate (2 * n) 0) i = 0 ∧
      padsAfter (List.replicate (2 * n) 0) i = 0 := fun i => by
    have := i.isLt
    simp only [padsBefore, padsAfter, List.getD_eq_getElem?_getD, List.getElem?_replicate]
    split_ifs <;> exact ⟨rfl, rfl⟩
  rw [resolvePads, hlength] at h
  by_cases hvalid : autoPadOf op = "VALID"
  · simp only [if_pos hvalid] at h
    obtain rfl := Option.some.inj h
    simp only [Padded, hvalid]
    exact hzeros
  by_cases hnotset : autoPadOf op = "NOTSET"
  · simp only [if_neg hvalid, if_pos hnotset] at h
    simp only [Padded, hnotset]
    split_ifs at h with hnil hsize
    · obtain rfl := Option.some.inj h
      rw [hnil]
      exact hzeros
    · obtain rfl := Option.some.inj h
      exact fun i => ⟨rfl, rfl⟩
  simp only [if_neg hvalid, if_neg hnotset] at h
  split_ifs at h with hsame
  obtain ⟨amounts, hamounts, h⟩ := Option.bind_eq_some_iff.mp h
  obtain rfl := Option.some.inj h
  obtain ⟨hcount, hvalues⟩ := mapM_range hamounts
  have hpadded : ∀ i : Fin n, SamePadded (autoPadOf op = "SAME_UPPER")
      (run.axes (padsBefore (amounts.map Prod.fst ++ amounts.map Prod.snd))
        (padsAfter (amounts.map Prod.fst ++ amounts.map Prod.snd)) i) := fun i => by
    have hi : (i : Nat) < amounts.length := by rw [hcount]; exact i.isLt
    have hbefore : padsBefore (amounts.map Prod.fst ++ amounts.map Prod.snd) i = amounts[i].1 := by
      refine getD_of_getElem? ?_
      rw [List.getElem?_append_left (by rwa [List.length_map]), List.getElem?_map,
        List.getElem?_eq_getElem hi]
      rfl
    have hafter : padsAfter (amounts.map Prod.fst ++ amounts.map Prod.snd) i = amounts[i].2 := by
      refine getD_of_getElem? ?_
      rw [List.getElem?_append_right (by rw [List.length_map, hcount]; omega), List.length_map, hcount,
        Nat.add_sub_cancel_left, List.getElem?_map, List.getElem?_eq_getElem hi]
      rfl
    have hpads := hvalues i i.isLt
    rw [List.getElem?_eq_getElem hi] at hpads
    rcases hinput.axes i with hsize | hsize
    · rw [samePads, if_pos hsize] at hpads
      cases hpads
    · rw [hsize] at hpads
      refine samePads_padded (run.kernelPos i) (hstride i) (hdilation i) ?_
      simp only [Run.axes, convAxis, hbefore, hafter, ← hkernel]
      exact hpads
  by_cases hupper : autoPadOf op = "SAME_UPPER"
  · rw [hupper] at hpadded
    simp only [Padded, hupper]
    exact hpadded
  · have hlower : autoPadOf op = "SAME_LOWER" := by tauto
    rw [hlower] at hpadded
    simp only [Padded, hlower]
    exact hpadded

/-- The amounts listed from the last axis are found from the last axis. -/
theorem getD_pairs (before after : Nat → Int) (l : List Nat) (j : Nat) :
    (l.flatMap fun i => [before i, after i]).getD (2 * j) 0 = (l[j]?.map before).getD 0 ∧
      (l.flatMap fun i => [before i, after i]).getD (2 * j + 1) 0 = (l[j]?.map after).getD 0 := by
  induction l generalizing j with
  | nil => exact ⟨rfl, rfl⟩
  | cons i l ih =>
    cases j with
    | zero => exact ⟨rfl, rfl⟩
    | succ j => exact ih j

theorem length_pairs (before after : Nat → Int) (l : List Nat) :
    (l.flatMap fun i => [before i, after i]).length = 2 * l.length := by
  induction l with
  | nil => rfl
  | cons i l ih =>
    rw [List.flatMap_cons, List.length_append, ih, List.length_cons]
    simp only [List.length_cons, List.length_nil]
    omega

/-- **The list for `aten.constant_pad_nd`** has the amounts of each axis where it is read. -/
theorem pad_reversed (before after : Nat → Int) (i : Fin n) :
    padBefore ((List.range n).reverse.flatMap fun i => [before i, after i]) i = before i ∧
      padAfter ((List.range n).reverse.flatMap fun i => [before i, after i]) i = after i := by
  have hi := i.isLt
  have hplace : (List.range n).reverse[n - 1 - (i : Nat)]? = some (i : Nat) := by
    rw [List.getElem?_reverse (by rw [List.length_range]; omega), List.length_range,
      List.getElem?_range (by omega)]
    exact congrArg some (by omega)
  obtain ⟨hbefore, hafter⟩ := getD_pairs before after (List.range n).reverse (n - 1 - i)
  rw [hplace] at hbefore hafter
  exact ⟨hbefore, hafter⟩

/-- The sizes of the padded input. -/
theorem paddedSizes_sized {x : Image n Int} {inputSizes : List Int} (h : Fits inputSizes x)
    (pads : List Int) (fill : Int) : Sized (inputSizes.take 2 ++ (List.range n).map fun i =>
      if inputSizes.getD (2 + i) 0 ≠ unknownSize then
        inputSizes.getD (2 + i) 0 + (pads.getD i 0 + pads.getD (n + i) 0)
      else inputSizes.getD (2 + i) 0) (x.pad (padsBefore pads) (padsAfter pads) fill) := by
  have hrank := h.rank
  have htake : (inputSizes.take 2).length = 2 := by rw [List.length_take]; omega
  have hleading : ∀ k < 2, ∀ rest : List Int,
      (inputSizes.take 2 ++ rest).getD k 0 = inputSizes.getD k 0 := fun k hk rest => by
    rw [List.getD_eq_getElem?_getD, List.getElem?_append_left (htake.symm ▸ hk),
      List.getElem?_take_of_lt hk, ← List.getD_eq_getElem?_getD]
  refine ⟨by rw [List.length_append, htake, List.length_map, List.length_range]; omega, ?_, ?_,
    fun i => ?_⟩
  · rw [hleading 0 (by decide)]
    exact h.batch
  · rw [hleading 1 (by decide)]
    exact h.channels
  · have hplace : ∀ f : Nat → Int,
        (inputSizes.take 2 ++ (List.range n).map f).getD (2 + i) 0 = f i := fun f => by
      refine getD_of_getElem? ?_
      rw [List.getElem?_append_right (by omega), htake, Nat.add_sub_cancel_left, List.getElem?_map,
        List.getElem?_range i.isLt]
      rfl
    rw [hplace]
    by_cases hknown : inputSizes.getD (2 + i) 0 = unknownSize
    · rw [if_neg (not_not.mpr hknown)]
      exact .inl hknown
    · rw [if_pos hknown, (h.axes i).resolve_left hknown]
      refine .inr (congrArg Int.toNat ?_)
      unfold padsBefore padsAfter
      omega

/-- **What the convolution reads**, quantized. It is the input, with the padding left to the convolution,
or the input padded by its zero point, with none left. -/
theorem eval_paddedInput (run : Run op n) {type : TensorType} {inputSizes pads : List Int}
    (hranked : op.operands[0]?.bind rankedOf = some (type, inputSizes)) {quantized : QuantizedDType}
    (hquantized : getQuantizedDtype type.dtype = some quantized) {zeroPoint : Scalar}
    {value : Value} {sizes padding : List Int}
    (h : paddedInput n inputSizes pads type.dtype zeroPoint = (value, sizes, padding)) :
    ((Value.makePerTensorQuantizedTensor sizes quantized value zeroPoint).eval run =
          some (run.input, zeroPoint.value run) ∧ axisOf padding = padsBefore (n := n) pads ∧
        axisOf padding = padsAfter (n := n) pads) ∨
      ((Value.makePerTensorQuantizedTensor sizes quantized value zeroPoint).eval run =
          some (run.input.pad (padsBefore pads) (padsAfter pads) (zeroPoint.value run),
            zeroPoint.value run) ∧
        ∀ i : Fin n, axisOf padding i = 0) := by
  have hfits := run.inputFits type inputSizes hranked
  have hdtype := dtype_operand hranked
  unfold paddedInput at h
  by_cases hsymmetric : ((List.range n).all fun i => pads.getD i 0 = pads.getD (n + i) 0) = true
  · rw [if_pos hsymmetric] at h
    simp only [Prod.mk.injEq] at h
    obtain ⟨rfl, rfl, rfl⟩ := h
    have hbefore : axisOf ((List.range n).map fun i => pads.getD i 0) = padsBefore (n := n) pads :=
      funext fun i => getD_of_getElem? (by rw [List.getElem?_map, List.getElem?_range i.isLt]; rfl)
    refine .inl ⟨?_, hbefore, hbefore.trans (funext fun i => ?_)⟩
    · simp only [Value.eval, hdtype, Option.bind_eq_bind, Option.bind_some, hquantized, hfits.sized,
        and_self, guard_true, Option.pure_def]
    · exact of_decide_eq_true (List.all_eq_true.mp hsymmetric i (List.mem_range.mpr i.isLt))
  · rw [if_neg hsymmetric] at h
    simp only [Prod.mk.injEq] at h
    obtain ⟨rfl, rfl, rfl⟩ := h
    refine .inr ⟨?_, fun i => ?_⟩
    · have hlength := length_pairs (fun i => pads.getD i 0) (fun i => pads.getD (n + i) 0)
        (List.range n).reverse
      rw [List.length_reverse, List.length_range] at hlength
      have hpad := pad_reversed (n := n) (fun i => pads.getD i 0) (fun i => pads.getD (n + i) 0)
      have hbefore : padBefore _ = padsBefore (n := n) pads := funext fun i => (hpad i).1
      have hafter : padAfter _ = padsAfter (n := n) pads := funext fun i => (hpad i).2
      have hsized := paddedSizes_sized hfits pads (zeroPoint.value run)
      simp only [Value.eval, hdtype, Option.bind_eq_bind, Option.bind_some, hlength, and_self,
        guard_true, Option.pure_def, hbefore, hafter, hsized, dtype_constantPadNd, hquantized]
    · rw [axisOf, getD_of_getElem? (List.getElem?_replicate_of_lt i.isLt)]

/-- One row above and three below, two columns before and four after. -/
example : (paddedInput 2 [1, 3, 224, 224] [1, 2, 3, 4] .ui8 (.item 2)).1 =
    .constantPadNd [1, 3, 228, 230] .ui8 (.operand 0) [2, 4, 1, 3] (.item 2) := by decide

/-! ### The expansion -/

theorem extractZeroPoint_value (run : Run op n) {index : Nat} {zeroPoint : Scalar}
    (h : extractZeroPoint op index = some zeroPoint) : zeroPoint.value run = run.zeroPoint index := by
  unfold extractZeroPoint at h
  cases hoperand : op.operands[index]? with
  | none =>
    rw [hoperand] at h
    obtain rfl := Option.some.inj h
    rw [Run.zeroPoint, if_neg (by rw [List.getElem?_eq_none_iff] at hoperand; omega)]
    rfl
  | some operand =>
    obtain ⟨hlt, -⟩ := List.getElem?_eq_some_iff.mp hoperand
    simp only [hoperand] at h
    cases hranked : rankedOf operand with
    | none =>
      rw [hranked] at h
      cases h
    | some ranked =>
      simp only [hranked] at h
      split_ifs at h with hall
      obtain rfl := Option.some.inj h
      rw [Run.zeroPoint, if_pos hlt]
      rfl

/-- The strides and the dilations of an operation. -/
def stridesOf (op : Operator) (spatialRank : Nat) : List Int :=
  onesOr (getIntArrayAttr op "torch.onnx.strides") spatialRank

def dilationsOf (op : Operator) (spatialRank : Nat) : List Int :=
  onesOr (getIntArrayAttr op "torch.onnx.dilations") spatialRank

/-- What a value that replaces the result is made of. -/
structure Made (op : Operator) (value : Value) where
  resultType : TensorType
  inputType : TensorType
  weightType : TensorType
  resultSizes : List Int
  inputSizes : List Int
  weightSizes : List Int
  inputDtype : QuantizedDType
  weightDtype : QuantizedDType
  kernel : List Int
  pads : List Int
  xZero : Scalar
  wZero : Scalar
  input : Value
  paddedSizes : List Int
  padding : List Int
  resultRanked : op.results[0]?.bind rankedOf = some (resultType, resultSizes)
  inputRanked : op.operands[0]?.bind rankedOf = some (inputType, inputSizes)
  weightRanked : op.operands[1]?.bind rankedOf = some (weightType, weightSizes)
  inputQuantized : getQuantizedDtype inputType.dtype = some inputDtype
  weightQuantized : getQuantizedDtype weightType.dtype = some weightDtype
  kernelRead : kernelOf op (inputSizes.length - 2) weightSizes = some kernel
  stridesLength : (stridesOf op (inputSizes.length - 2)).length = inputSizes.length - 2
  dilationsLength : (dilationsOf op (inputSizes.length - 2)).length = inputSizes.length - 2
  padsRead : resolvePads op inputSizes kernel (stridesOf op (inputSizes.length - 2))
    (dilationsOf op (inputSizes.length - 2)) = some pads
  xZeroRead : extractZeroPoint op 2 = some xZero
  wZeroRead : extractZeroPoint op 3 = some wZero
  inputMade : paddedInput (inputSizes.length - 2) inputSizes pads inputType.dtype xZero =
    (input, paddedSizes, padding)
  valueMade : value = .intRepr resultType (.convolution resultSizes .qint32
    (.makePerTensorQuantizedTensor paddedSizes inputDtype input xZero)
    (.makePerTensorQuantizedTensor weightSizes weightDtype (.operand 1) wZero)
    (stridesOf op (inputSizes.length - 2)) padding (dilationsOf op (inputSizes.length - 2))
    (List.replicate (inputSizes.length - 2) 0) (getIntAttrOr op "torch.onnx.group" 1))

theorem expandConvInteger_made {value : Value} (h : expandConvInteger op = .ok value) :
    Nonempty (Made op value) := by
  unfold expandConvInteger at h
  obtain ⟨-, h⟩ := bind_unit_ok.mp h
  obtain ⟨⟨resultType, resultSizes⟩, hresult, h⟩ := bind_ok.mp h
  obtain ⟨⟨inputType, inputSizes⟩, hinput, h⟩ := bind_ok.mp h
  obtain ⟨⟨weightType, weightSizes⟩, hweight, h⟩ := bind_ok.mp h
  obtain ⟨inputDtype, hinputDtype, h⟩ := bind_ok.mp h
  obtain ⟨weightDtype, hweightDtype, h⟩ := bind_ok.mp h
  obtain ⟨-, h⟩ := bind_unit_ok.mp h
  obtain ⟨kernel, hkernel, h⟩ := bind_ok.mp h
  obtain ⟨hlengths, h⟩ := bind_unit_ok.mp h
  obtain ⟨pads, hpads, h⟩ := bind_ok.mp h
  obtain ⟨hstrides, hdilations⟩ := unlessErr_ok.mp hlengths
  split at h
  · rename_i xZero wZero hx hw
    obtain rfl := Except.ok.inj h
    exact ⟨resultType, inputType, weightType, resultSizes, inputSizes, weightSizes, inputDtype,
      weightDtype, kernel, pads, xZero, wZero, _, _, _, okOr_ok.mp hresult, okOr_ok.mp hinput,
      okOr_ok.mp hweight, okOr_ok.mp hinputDtype, okOr_ok.mp hweightDtype, okOr_ok.mp hkernel,
      hstrides, hdilations, okOr_ok.mp hpads, hx, hw, rfl, rfl⟩
  · cases h

/-- **The expansion computes ConvInteger**: where the pass expands an operation, what it emits is the sum over
ONNX's window, for the padding that the attributes ask for, at every output of every run. -/
theorem expansion_computes {value : Value} (h : expandConvInteger op = .ok value) (run : Run op n) :
    ∃ before after : Fin n → Int, Padded op (run.axes before after) ∧
      ∃ y, value.eval run = some (y, 0) ∧ SameImage y (run.result before after) := by
  obtain ⟨made⟩ := expandConvInteger_made h
  have hinput := run.inputFits _ _ made.inputRanked
  have hweight := run.weightFits _ _ made.weightRanked
  have hrank : made.inputSizes.length - 2 = n := by
    have := hinput.rank
    omega
  obtain ⟨resultType, inputType, weightType, resultSizes, inputSizes, weightSizes, inputDtype, weightDtype,
    kernel, pads, xZero, wZero, input, paddedSizes, padding, hresultRanked, hinputRanked, hweightRanked,
    hinputDtype, hweightDtype, hkernel, hstrides, hdilations, hpads, hx, hw, hmade, rfl⟩ := made
  simp only at hrank hinput hweight
  rw [hrank] at hkernel hstrides hdilations hpads hmade ⊢
  obtain ⟨hlength, hextents⟩ := kernelOf_eq run hweight hkernel
  have hstride : ∀ i : Fin n, 0 < axisOf (stridesOf op n) i := onesOr_pos run.stridesPos hstrides
  have hdilation : ∀ i : Fin n, 0 < axisOf (dilationsOf op n) i := onesOr_pos run.dilationsPos hdilations
  refine ⟨padsBefore pads, padsAfter pads,
    resolvePads_padded run hinput hlength hextents rfl rfl hstride hdilation hpads, ?_⟩
  have hxValue := extractZeroPoint_value run hx
  have hwValue := extractZeroPoint_value run hw
  have hresult : op.results[0]? = some (.tensor resultType) := by
    obtain ⟨result, hresult, hranked⟩ := Option.bind_eq_some_iff.mp hresultRanked
    rw [hresult, (rankedOf_some hranked).1]
  have hfilter : (Value.makePerTensorQuantizedTensor weightSizes weightDtype (.operand 1) wZero).eval run =
      some (run.weight, run.zeroPoint 3) := by
    simp only [Value.eval, dtype_operand hweightRanked, Option.bind_eq_bind, Option.bind_some,
      hweightDtype, hweight.sized, and_self, guard_true, Option.pure_def, hwValue]
  have hconvolved {x : Image n Int} {quantizedInput : Value}
      (heval : quantizedInput.eval run = some (x, run.zeroPoint 2)) :
      (Value.intRepr resultType (.convolution resultSizes .qint32 quantizedInput
        (.makePerTensorQuantizedTensor weightSizes weightDtype (.operand 1) wZero) (stridesOf op n)
        padding (dilationsOf op n) (List.replicate n 0)
        (getIntAttrOr op "torch.onnx.group" 1))).eval run =
        some (quantizedConvolution x run.weight (run.zeroPoint 2) (run.zeroPoint 3) (stridesOf op n)
          padding (dilationsOf op n) (getIntAttrOr op "torch.onnx.group" 1), 0) := by
    rw [Value.eval, Value.eval, heval, hfilter]
    simp only [Option.bind_eq_bind, Option.bind_some, hresultRanked, Option.map_some, and_self,
      guard_true, Option.pure_def]
    simp only [hresult, guard_true, Option.pure_def, Option.bind_some]
  rcases eval_paddedInput run hinputRanked hinputDtype hmade with
    ⟨heval, hbefore, hafter⟩ | ⟨heval, hzeros⟩
  · rw [hxValue] at heval
    refine ⟨_, hconvolved heval, ?_⟩
    rw [convolution_symmetric padding hbefore hafter]
    exact .refl _
  · rw [hxValue] at heval
    exact ⟨_, hconvolved heval, convolution_padded padding hzeros hstride hdilation run.kernelPos⟩

/-- **The pass on one operation.** It is replaced by a value that computes ConvInteger, or it is left as it
was, behind the scalars that were created before the pass gave up. -/
theorem convInteger_expanded_or_kept (op : Operator) :
    (∃ value, runOnOperator op = [.replaced value] ∧ ∀ (n : Nat) (run : Run op n),
      ∃ before after : Fin n → Int, Padded op (run.axes before after) ∧
        ∃ y, value.eval run = some (y, 0) ∧ SameImage y (run.result before after)) ∨
    ∃ created : List Scalar, runOnOperator op = created.map .scalar ++ [.kept op] := by
  unfold runOnOperator
  split_ifs with hname
  · exact .inr ⟨[], rfl⟩
  cases h : expandConvInteger op with
  | error refusal => exact .inr ⟨refusal.created, rfl⟩
  | ok value => exact .inl ⟨value, rfl, fun n run => expansion_computes h run⟩

/-! ### A row of five, read by fours at every second position -/

/-- The last window ends three behind the row: one position is put before it and two after. -/
def sameUpper : Operator where
  name := "onnx.ConvInteger"
  operands := [.tensor ⟨some [1, 1, 5], .ui8⟩, .tensor ⟨some [1, 1, 4], .ui8⟩, .tensor ⟨some [1], .ui8⟩]
  results := [.tensor ⟨some [1, 1, 3], .si32⟩]
  attrs := [("torch.onnx.auto_pad", .string "SAME_UPPER"), ("torch.onnx.strides", .array [some 2])]

def fivePixels : Image 1 Int := ⟨1, 1, fun _ => 5, fun _ _ p => p (Fin.last 0)⟩

def fourTaps : Image 1 Int := ⟨1, 1, fun _ => 4, fun _ _ _ => 1⟩

theorem fivePixels_fits (type : TensorType) (sizes : List Int)
    (h : sameUpper.operands[0]?.bind rankedOf = some (type, sizes)) : Fits sizes fivePixels := by
  cases h
  exact ⟨rfl, .inr rfl, .inr rfl, fun i => .inr (by rw [Fin.fin_one_eq_zero i]; rfl)⟩

theorem fourTaps_fits (type : TensorType) (sizes : List Int)
    (h : sameUpper.operands[1]?.bind rankedOf = some (type, sizes)) : Fits sizes fourTaps := by
  cases h
  exact ⟨rfl, .inr rfl, .inr rfl, fun i => .inr (by rw [Fin.fin_one_eq_zero i]; rfl)⟩

theorem fourTaps_pos (i : Fin 1) : 0 < fourTaps.extent i := Nat.succ_pos 3

theorem sameUpper_kernelShape (h : getIntArrayAttr sameUpper "torch.onnx.kernel_shape" ≠ []) (i : Fin 1) :
    axisOf (getIntArrayAttr sameUpper "torch.onnx.kernel_shape") i = fourTaps.extent i := absurd rfl h

theorem sameUpper_strides : ∀ stride ∈ getIntArrayAttr sameUpper "torch.onnx.strides", 0 < stride := by
  decide

theorem sameUpper_dilations :
    ∀ dilation ∈ getIntArrayAttr sameUpper "torch.onnx.dilations", 0 < dilation := by
  decide

def sameUpperRun : Run sameUpper 1 where
  input := fivePixels
  weight := fourTaps
  item _ := 3
  inputFits := fivePixels_fits
  weightFits := fourTaps_fits
  kernelShape := sameUpper_kernelShape
  kernelPos := fourTaps_pos
  stridesPos := sameUpper_strides
  dilationsPos := sameUpper_dilations

theorem convInteger_expanded_same_upper : ∃ value, runOnOperator sameUpper = [.replaced value] ∧
    ∃ before after : Fin 1 → Int, Padded sameUpper (sameUpperRun.axes before after) ∧
      ∃ y, value.eval sameUpperRun = some (y, 0) ∧ SameImage y (sameUpperRun.result before after) := by
  rcases convInteger_expanded_or_kept sameUpper with ⟨value, hvalue, hcomputes⟩ | ⟨created, hkept⟩
  · exact ⟨value, hvalue, hcomputes 1 sameUpperRun⟩
  · have hreplaced : Emitted.kept sameUpper ∉ runOnOperator sameUpper := by decide
    rw [hkept] at hreplaced
    exact absurd (List.mem_append_right _ (List.mem_singleton_self _)) hreplaced

end IreeRocket.Plugin.ConvInteger
