import IreeRocket.Lib.RowMajor
import IreeRocket.Plugin.FoldConvPad
import Mathlib.Data.Option.Basic

/-!
# What a recorded padding says

A convolution is soundly marked when, whatever the pad's source holds, the tensor it reads is the source
under the same reshapes, padded by the recorded amounts on the convolution's own height and width. The
amounts are static, even and of zeros by the checks on the pad; what no check looks at is whether the
reshapes carry the pad's axes to the convolution's. A mark is sound exactly when they do
(`marked_soundly_iff`): each padded axis keeps its extent and its stride.

Tensors are in row-major order, where a reshape changes no element. `ReadsPadded.by_indices` says what a
sound mark means for tensors that are given by their indices.
-/

namespace IreeRocket.Plugin.FoldConvPad

open RowMajor

variable {α : Type}

/-! ### Meaning -/

/-- The tensor at the end of the reshapes, the nearest to the convolution first. -/
def carried : List Reshape → Tensor α → Tensor α
  | [], x => x
  | op :: ops, x => (carried ops x).reshape (op.shape (carried ops x).shape)

/-- The reassociations of the reshapes take one shape to another. -/
def Through : List Reshape → List Nat → List Nat → Prop
  | [], source, result => source = result
  | op :: ops, source, result => ∃ middle, Through ops source middle ∧ op.Relates middle result

/-- `tensor.pad` in a run. -/
def PadOp.apply (pad : PadOp α) (fill : α) (x : Tensor α) : Tensor α :=
  x.pad (pad.low.map Amount.value) (pad.high.map Amount.value) fill

/-- The amounts of a padding of a convolution's own height and width. -/
def ConvOp.amounts (op : ConvOp) (padTop padLeft : Int) : List Int :=
  spatialAmounts 4 op.spatialH padTop padLeft

/-- Whatever the source of a pad holds, the tensor behind the reshapes is an input of the convolution's rank,
the source under the same reshapes, padded by the amounts. -/
def ReadsPadded (op : ConvOp) (reshapes : List Reshape) (pad : PadOp α) (fill : α) (source : List Nat)
    (padTop padLeft : Int) : Prop :=
  ∀ x : Tensor α, x.shape = source → ∃ y : Tensor α,
    (Through reshapes x.shape y.shape ∧ y.elements = x.elements ∧ y.shape.length = 4) ∧
      y.pad (op.amounts padTop padLeft) (op.amounts padTop padLeft) fill =
        carried reshapes (pad.apply fill x)

/-- A pad that is static, even on both sides and of zeros. -/
structure PadOp.EvenZero (float : FloatType α) (pad : PadOp α) (fill : α) : Prop where
  even : pad.low = pad.high
  static : pad.low.all Amount.isStatic = true
  constant : ∃ inside, pad.yield = some (.constant fill inside)
  zero : float.isZero fill = true

/-- What a mark on a convolution promises. -/
def SoundlyMarked (float : FloatType α) (pads : List (PadOp α)) (conv : Conv) (padTop padLeft : Int) : Prop :=
  ∃ input index source pad fill, conv.inputs[0]? = some input ∧ (walk 4 input).2 = .pad index source ∧
    pads[index]? = some pad ∧ pad.EvenZero float fill ∧
      ReadsPadded conv.op (walk 4 input).1 pad fill (source.shape pads) padTop padLeft

/-- The pad behind a convolution's reshapes is static, even and of zeros, and adds the amounts to the two axes
that its rank makes the spatial ones, and to no others. -/
def PadChecked (float : FloatType α) (pads : List (PadOp α)) (conv : Conv) (padTop padLeft : Int) : Prop :=
  ∃ input index source pad fill, conv.inputs[0]? = some input ∧ (walk 4 input).2 = .pad index source ∧
    pads[index]? = some pad ∧ pad.EvenZero float fill ∧
      pad.low.map Amount.value = spatialAmounts (source.shape pads).length
        (conv.op.spatialH + ((source.shape pads).length - 4)) padTop padLeft

/-! ### Well-formed modules -/

/-- What the verifiers of the operations check. -/
def Value.Verified (pads : List (PadOp α)) : Value → Prop
  | .result _ => True
  | .reshape op source => op.Relates (source.shape pads) (op.shape (source.shape pads)) ∧ source.Verified pads
  | .pad index source =>
    (∃ pad, pads[index]? = some pad ∧ pad.low.length = (source.shape pads).length ∧
      pad.high.length = (source.shape pads).length) ∧ source.Verified pads

/-- Every convolution reads a verified value of rank four. -/
def Module.Verified (module : Module α) : Prop :=
  ∀ conv ∈ module.convs, ∀ input, conv.inputs[0]? = some input →
    input.Verified module.pads ∧ (input.shape module.pads).length = 4

/-! ### Reshapes -/

theorem groupProducts_prod {sizes shape : List Nat} (h : sizes.sum = shape.length) :
    (groupProducts sizes shape).prod = shape.prod := by
  induction sizes generalizing shape with
  | nil =>
    obtain rfl : shape = [] := List.eq_nil_of_length_eq_zero (by simpa using h.symm)
    rfl
  | cons size sizes ih =>
    rw [List.sum_cons] at h
    rw [groupProducts, List.prod_cons, ih (by rw [List.length_drop]; omega), ← List.prod_append,
      List.take_append_drop]

theorem Reassociated.prod_eq {sizes fine coarse : List Nat} (h : Reassociated sizes fine coarse) :
    coarse.prod = fine.prod := by
  obtain ⟨rfl, hcover | ⟨rfl, hunit⟩⟩ := h
  · exact groupProducts_prod hcover
  · exact hunit.symm

theorem Reshape.Relates.prod_eq {op : Reshape} {source result : List Nat} (h : op.Relates source result) :
    result.prod = source.prod := by
  cases op with
  | collapse sizes => exact Reassociated.prod_eq h
  | expand sizes shape => exact (Reassociated.prod_eq h).symm

theorem Through.prod_eq {reshapes : List Reshape} {source result : List Nat}
    (h : Through reshapes source result) : result.prod = source.prod := by
  induction reshapes generalizing result with
  | nil => exact congrArg List.prod h.symm
  | cons op ops ih =>
    obtain ⟨middle, hthrough, hop⟩ := h
    exact hop.prod_eq.trans (ih hthrough)

theorem carried_elements (reshapes : List Reshape) (x : Tensor α) :
    (carried reshapes x).elements = x.elements := by
  induction reshapes with
  | nil => rfl
  | cons op ops ih => rw [carried, Tensor.reshape_elements, ih]

/-! ### By indices -/

/-- Groups of adjacent axes, from the first one on. -/
def adjacentGroups : Nat → List Nat → List (List Nat)
  | _, [] => []
  | first, size :: sizes => List.range' first size :: adjacentGroups (first + size) sizes

theorem adjacentGroups_flatten (first : Nat) (sizes : List Nat) :
    (adjacentGroups first sizes).flatten = List.range' first sizes.sum := by
  induction sizes generalizing first with
  | nil => rfl
  | cons size sizes ih =>
    rw [adjacentGroups, List.flatten_cons, ih, List.sum_cons, ← List.range'_append_1]

theorem gather_adjacent {shape : List Nat} {first size : Nat} (h : first + size ≤ shape.length) :
    Linalg.gather (List.range' first size) shape = (shape.drop first).take size := by
  refine List.ext_getElem ?_ fun i hi hi' => ?_
  · simp only [Linalg.gather, List.length_map, List.length_range', List.length_take, List.length_drop]
    omega
  · simp only [Linalg.gather, List.length_map, List.length_range'] at hi
    simp only [Linalg.gather, List.getElem_map, List.getElem_range', List.getElem_take, List.getElem_drop,
      Nat.one_mul]
    rw [List.getD_eq_getElem _ _ (by omega)]

theorem groupProducts_adjacent {sizes shape : List Nat} {first : Nat}
    (h : first + sizes.sum ≤ shape.length) :
    (adjacentGroups first sizes).map (fun group => (Linalg.gather group shape).prod) =
      groupProducts sizes (shape.drop first) := by
  induction sizes generalizing first with
  | nil => rfl
  | cons size sizes ih =>
    rw [List.sum_cons] at h
    rw [adjacentGroups, List.map_cons, groupProducts, gather_adjacent (by omega), ih (by omega),
      List.drop_drop]

/-- A reshape of tensors that are given by their indices. -/
def Reshape.Regroups : Reshape → Linalg.Tensor α → Linalg.Tensor α → Prop
  | collapse sizes, source, result => sizes.sum = source.shape.length ∧
      Linalg.Grouped (adjacentGroups 0 sizes) source result
  | expand sizes shape, source, result => result.shape = shape ∧ sizes.sum = shape.length ∧
      Linalg.Grouped (adjacentGroups 0 sizes) result source

/-- Reshapes one after another, the last one first. -/
def Regrouped : List Reshape → Linalg.Tensor α → Linalg.Tensor α → Prop
  | [], source, result => result = source
  | op :: ops, source, result => ∃ middle, Regrouped ops source middle ∧ op.Regroups middle result

theorem Reshape.Regroups.layOut_eq {op : Reshape} {source result : Linalg.Tensor α}
    (h : op.Regroups source result) :
    (layOut source).reshape (op.shape source.shape) = layOut result := by
  have hgroups {sizes shape : List Nat} (hsum : sizes.sum = shape.length) :
      (adjacentGroups 0 sizes).flatten = List.range shape.length := by
    rw [adjacentGroups_flatten, hsum, List.range_eq_range']
  cases op with
  | collapse sizes =>
    obtain ⟨hsum, hgrouped⟩ := h
    have hshape : groupProducts sizes source.shape = result.shape := by
      rw [hgrouped.1, groupProducts_adjacent (by omega), List.drop_zero]
    rw [shape, hshape]
    exact (reshape_grouped hgrouped (hgroups hsum)).1
  | expand sizes shape =>
    obtain ⟨rfl, hsum, hgrouped⟩ := h
    exact (reshape_grouped hgrouped (hgroups hsum)).2

/-- The reshapes of a tensor by its indices are those of its layout. -/
theorem Regrouped.carried_eq {reshapes : List Reshape} {source result : Linalg.Tensor α}
    (h : Regrouped reshapes source result) : carried reshapes (layOut source) = layOut result := by
  induction reshapes generalizing result with
  | nil => exact congrArg layOut (Eq.symm h)
  | cons op ops ih =>
    obtain ⟨middle, hmiddle, hop⟩ := h
    rw [carried, ih hmiddle]
    exact hop.layOut_eq

/-- **A recorded padding, by indices.** Pad a source with the pad and regroup the result: it has the elements
of an input with the source's elements in the same order, padded by the amounts. -/
theorem ReadsPadded.by_indices {op : ConvOp} {reshapes : List Reshape} {pad : PadOp α} {fill : α}
    {padTop padLeft : Int} {source read : Linalg.Tensor α}
    (h : ReadsPadded op reshapes pad fill source.shape padTop padLeft)
    (hlow : pad.low.length = source.shape.length) (hhigh : pad.high.length = source.shape.length)
    (hread : Regrouped reshapes (Linalg.padded (pad.low.map Amount.value) (pad.high.map Amount.value)
      (fun _ => fill) source) read) :
    ∃ input : Linalg.Tensor α, input.shape.length = 4 ∧
      (layOut input).elements = (layOut source).elements ∧
      Linalg.Same (Linalg.padded (op.amounts padTop padLeft) (op.amounts padTop padLeft) (fun _ => fill)
        input) read := by
  obtain ⟨y, ⟨-, helements, hrank⟩, hpadded⟩ := h (layOut source) rfl
  have hlayout := layOut_indexed y fill
  refine ⟨y.indexed fill, hrank, (congrArg Tensor.elements hlayout).trans helements, ?_⟩
  have hamounts : (op.amounts padTop padLeft).length = (y.indexed fill).shape.length := by
    rw [ConvOp.amounts, length_spatialAmounts (by cases op <;> decide)]
    exact hrank.symm
  rw [← layOut_eq_iff, layOut_padded hamounts hamounts, hlayout, hpadded, ← hread.carried_eq,
    layOut_padded (by rwa [List.length_map]) (by rwa [List.length_map])]
  rfl

variable {pads : List (PadOp α)}

/-- A walk ends where its reshapes start from. -/
theorem walk_through {left : Nat} {value : Value} (h : value.Verified pads) :
    Through (walk left value).1 ((walk left value).2.shape pads) (value.shape pads) ∧
      (walk left value).2.Verified pads := by
  induction left generalizing value with
  | zero => exact ⟨rfl, h⟩
  | succ left ih =>
    cases value with
    | result shape => exact ⟨rfl, h⟩
    | pad index source => exact ⟨rfl, h⟩
    | reshape op source =>
      obtain ⟨hop, hsource⟩ := h
      obtain ⟨hthrough, hend⟩ := ih hsource
      exact ⟨⟨_, hthrough, hop⟩, hend⟩

theorem carried_shape (left : Nat) {value : Value} (h : value.Verified pads) {x : Tensor α}
    (hx : x.shape = (walk left value).2.shape pads) :
    (carried (walk left value).1 x).shape = value.shape pads := by
  induction left generalizing value with
  | zero => exact hx
  | succ left ih =>
    cases value with
    | result shape => exact hx
    | pad index source => exact hx
    | reshape op source =>
      obtain ⟨hop, hsource⟩ := h
      have hshape := ih hsource hx
      rw [walk, carried, hshape, Tensor.reshape_shape]
      · rfl
      · rw [hshape]
        exact hop.prod_eq

/-! ### When the reshapes carry a padding -/

/-- An axis of one shape is one of another: of the same extent and the same stride. -/
def SameAxis (shape : List Nat) (axis : Nat) (shape' : List Nat) (axis' : Nat) : Prop :=
  shape.getD axis 0 = shape'.getD axis' 0 ∧ strideAt shape axis = strideAt shape' axis'

/-- The reshapes of a pad carry its padding to the height and the width of what the convolution reads. The
pad's own axes are those at `axis` and after it. -/
structure Carries (op : ConvOp) (reshapes : List Reshape) (source padded read : List Nat) (axis : Nat)
    (padTop padLeft : Int) : Prop where
  /-- They take the pad's source to what is read without the padding. -/
  replays : ∃ input, Through reshapes source input ∧ input.length = 4 ∧
    (axesOf (op.amounts padTop padLeft) input (op.amounts padTop padLeft)).map Axis.padded = read
  /-- Each padded axis keeps its extent and its stride, unless there is nothing to pad. -/
  axes : 0 < source.prod → (0 < padTop → SameAxis padded axis read op.spatialH) ∧
    (0 < padLeft → SameAxis padded (axis + 1) read (op.spatialH + 1))

theorem spatialH_lt (op : ConvOp) : op.spatialH + 2 ≤ 4 := by
  cases op <;> decide

section Reads

variable {op : ConvOp} {reshapes : List Reshape} {pad : PadOp α} {fill : α} {source read : List Nat}
variable {axis top left : Nat}

/-- What is read tells the extents of the input. -/
theorem padded_injective {input input' : List Nat} (h : input.length = 4) (h' : input'.length = 4)
    (hread : (axesOf (op.amounts top left) input (op.amounts top left)).map Axis.padded = read)
    (hread' : (axesOf (op.amounts top left) input' (op.amounts top left)).map Axis.padded = read) :
    input = input' := by
  have hrank := spatialH_lt op
  unfold ConvOp.amounts at hread hread'
  rw [← h, padded_spatial (by omega)] at hread
  rw [← h', padded_spatial (by omega), ← hread] at hread'
  obtain ⟨pre, n, m, post, rfl, hpre⟩ := shape_split (h ▸ hrank)
  obtain ⟨pre', n', m', post', rfl, hpre'⟩ := shape_split (h' ▸ hrank)
  have htake (pre : List Nat) (n m : Nat) (post : List Nat) (hlength : pre.length = op.spatialH) :
      (pre ++ n :: m :: post).take op.spatialH = pre ∧
        (pre ++ n :: m :: post).getD op.spatialH 0 = n ∧
        (pre ++ n :: m :: post).getD (op.spatialH + 1) 0 = m ∧
        (pre ++ n :: m :: post).drop (op.spatialH + 2) = post := by
    rw [← hlength]
    simp [List.drop_length_add_append]
  obtain ⟨hp, hn, hm, hq⟩ := htake pre n m post hpre
  obtain ⟨hp', hn', hm', hq'⟩ := htake pre' n' m' post' hpre'
  rw [hp, hn, hm, hq, hp', hn', hm', hq'] at hread'
  obtain ⟨rfl, htail⟩ := List.append_inj hread' (hpre'.trans hpre.symm)
  simp only [List.cons.injEq, Nat.add_right_cancel_iff] at htail
  obtain ⟨rfl, rfl, rfl⟩ := htail
  rfl

/-- Two planes agree exactly when their padded axes are the same. -/
theorem agree_iff (haxis : axis + 2 ≤ source.length) {padded input : List Nat} (hinput : input.length = 4)
    (hpadded : (axesOf (spatialAmounts source.length axis top left) source
      (spatialAmounts source.length axis top left)).map Axis.padded = padded)
    (hread : (axesOf (op.amounts top left) input (op.amounts top left)).map Axis.padded = read) :
    (planeOf source axis top left).Agree (planeOf input op.spatialH top left) ↔
      ((0 : Int) < top → SameAxis padded axis read op.spatialH) ∧
        ((0 : Int) < left → SameAxis padded (axis + 1) read (op.spatialH + 1)) := by
  obtain ⟨-, ⟨hheight, hrow⟩, hwidth, hinner⟩ := planeOf_padded haxis hpadded
  have hrank := spatialH_lt op
  unfold ConvOp.amounts at hread
  rw [← hinput] at hread hrank
  obtain ⟨-, ⟨hheight', hrow'⟩, hwidth', hinner'⟩ := planeOf_padded hrank hread
  unfold Plane.Agree SameAxis
  rw [hheight, hrow, hwidth, hinner, hheight', hrow', hwidth', hinner', Int.natCast_pos, Int.natCast_pos]
  rfl

theorem readsPadded_iff (haxis : axis + 2 ≤ source.length)
    (hlow : pad.low.map Amount.value = spatialAmounts source.length axis top left)
    (hhigh : pad.high.map Amount.value = spatialAmounts source.length axis top left)
    (hthrough : Through reshapes (pad.shape source) read)
    (hcarried : ∀ x : Tensor α, x.shape = pad.shape source → (carried reshapes x).shape = read)
    {other : α} (hother : other ≠ fill) :
    ReadsPadded op reshapes pad fill source top left ↔
      Carries op reshapes source (pad.shape source) read axis top left := by
  have hpadded : (axesOf (spatialAmounts source.length axis top left) source
      (spatialAmounts source.length axis top left)).map Axis.padded = pad.shape source := by
    rw [PadOp.shape, hlow, hhigh]
  have hprod : (planeOf source axis top left).count = source.prod := planeOf_count haxis
  have hsource (x : Tensor α) (hx : x.shape = source) : (carried reshapes (pad.apply fill x)).elements =
      (planeOf source axis top left).pad x.elements fill := by
    subst hx
    rw [carried_elements, PadOp.apply, hlow, hhigh]
    exact Tensor.pad_spatial haxis fill
  have hinput (y : Tensor α) (hy : y.shape.length = 4) :
      (y.pad (op.amounts top left) (op.amounts top left) fill).elements =
        (planeOf y.shape op.spatialH top left).pad y.elements fill := by
    have hrank := spatialH_lt op
    unfold ConvOp.amounts
    rw [← hy] at hrank ⊢
    exact Tensor.pad_spatial hrank fill
  have hshape (x : Tensor α) (hx : x.shape = source) :
      (carried reshapes (pad.apply fill x)).shape = read := by
    subst hx
    exact hcarried _ rfl
  -- the two planes have as many elements, with and without the padding
  have hcounts {input : List Nat} (hlength : input.length = 4) (hreplay : Through reshapes source input)
      (hread : (axesOf (op.amounts top left) input (op.amounts top left)).map Axis.padded = read) :
      (planeOf source axis top left).count = (planeOf input op.spatialH top left).count ∧
        (planeOf source axis top left).total = (planeOf input op.spatialH top left).total := by
    have hrank := spatialH_lt op
    unfold ConvOp.amounts at hread
    rw [← hlength] at hread hrank
    rw [hprod, planeOf_count hrank, (planeOf_padded haxis hpadded).1,
      (planeOf_padded hrank hread).1, hreplay.prod_eq, hthrough.prod_eq]
    exact ⟨rfl, rfl⟩
  constructor
  · intro h
    obtain ⟨y, ⟨hreplay, -, hlength⟩, hsame⟩ := h ⟨source, List.replicate source.prod other, by simp⟩ rfl
    have hread := (congrArg Tensor.shape hsame).trans (hshape _ rfl)
    obtain ⟨hcount, htotal⟩ := hcounts hlength hreplay hread
    refine ⟨⟨y.shape, hreplay, hlength, hread⟩, fun hpos => ?_⟩
    rw [← agree_iff haxis hlength hpadded hread]
    rw [← hprod] at hpos
    refine (Plane.pad_eq_iff hcount htotal rfl rfl hother).mp (fun elements helements => ?_) hpos
    rw [hprod] at helements
    obtain ⟨z, ⟨-, hz, hzlength⟩, hzsame⟩ := h ⟨source, elements, helements⟩ rfl
    have hzshape : z.shape = y.shape :=
      padded_injective hzlength hlength ((congrArg Tensor.shape hzsame).trans (hshape _ rfl)) hread
    have hpads := congrArg Tensor.elements hzsame
    rw [hinput z hzlength, hsource _ rfl, hz, hzshape] at hpads
    exact hpads.symm
  · rintro ⟨⟨input, hreplay, hlength, hread⟩, haxes⟩ x hx
    have hwhole : x.elements.length = input.prod := by rw [x.whole, hx, hreplay.prod_eq]
    obtain ⟨hcount, htotal⟩ := hcounts hlength hreplay hread
    refine ⟨⟨input, x.elements, hwhole⟩, ⟨hx ▸ hreplay, rfl, hlength⟩, Tensor.ext ?_ ?_⟩
    · exact hread.trans (hshape x hx).symm
    · have hagree : 0 < (planeOf source axis top left).count →
          (planeOf source axis top left).Agree (planeOf input op.spatialH top left) := by
        intro hpos
        rw [hprod] at hpos
        exact (agree_iff haxis hlength hpadded hread).mpr (haxes hpos)
      have hpads := (Plane.pad_eq_iff hcount htotal rfl rfl hother).mpr hagree x.elements
        (x.whole.trans (hx ▸ hprod.symm))
      rw [hinput ⟨input, x.elements, hwhole⟩ hlength, hsource x hx]
      exact hpads.symm

end Reads

/-! ### What the pass checks -/

section Checks

variable {float : FloatType α} {pad : PadOp α} {padTop padLeft : Int}

/-- The amounts that a pad in a run adds, where none is dynamic. -/
theorem staticValue_eq {amounts : List Amount} (h : amounts.all Amount.isStatic = true) :
    amounts.map Amount.staticValue = amounts.map Amount.value := by
  refine List.map_congr_left fun amount hmem => ?_
  have hstatic := List.all_eq_true.mp h amount hmem
  cases amount with
  | static value => rfl
  | dynamic value => cases hstatic

/-- Amounts with the same values are the same, where none is dynamic. -/
theorem amounts_eq {low high : List Amount} (hlow : low.all Amount.isStatic = true)
    (hhigh : high.all Amount.isStatic = true) (h : low.map Amount.value = high.map Amount.value) :
    low = high := by
  have hinj : ∀ a a' : Amount, a.isStatic = true → a'.isStatic = true → a.value = a'.value → a = a' := by
    rintro (value | value) (value' | value') ha ha' hvalue
    · exact congrArg Amount.static hvalue
    · cases ha'
    · cases ha
    · cases ha
  have hlength : low.length = high.length := by simpa using congrArg List.length h
  refine List.ext_getElem hlength fun i hi hi' => ?_
  refine hinj _ _ (List.all_eq_true.mp hlow _ (List.getElem_mem hi))
    (List.all_eq_true.mp hhigh _ (List.getElem_mem hi')) ?_
  have hvalue := congrArg (fun l => l[i]?) h
  simpa [hi, hi'] using hvalue

theorem ext_getD {l l' : List Int} (hlength : l.length = l'.length)
    (h : ∀ i < l.length, l.getD i 0 = l'.getD i 0) : l = l' := by
  refine List.ext_getElem hlength fun i hi hi' => ?_
  simpa [hi, hi'] using h i hi

/-- What `matchSymmetricSpatialPad` has checked. -/
theorem matchSymmetricSpatialPad_some {axis rank : Nat} (haxis : axis + 2 ≤ rank)
    (hlength : pad.low.length = rank)
    (h : matchSymmetricSpatialPad float pad (axis, axis + 1) = some (padTop, padLeft)) :
    (0 ≤ padTop ∧ 0 ≤ padLeft) ∧ pad.low.map Amount.value = spatialAmounts rank axis padTop padLeft ∧
      ∃ fill, pad.EvenZero float fill := by
  unfold matchSymmetricSpatialPad at h
  simp only [Option.bind_eq_bind, Option.bind_eq_some_iff, Option.guard_eq_some', exists_const,
    Option.pure_def] at h
  obtain ⟨hsizes, ⟨hlow, hhigh⟩, haxes, -, -, yielded, hyield, hrest⟩ := h
  rw [staticValue_eq hlow] at hsizes haxes hrest
  rw [staticValue_eq hhigh] at hsizes haxes
  cases yielded with
  | computed => cases hrest
  | constant fill inside =>
    simp only [Option.bind_eq_some_iff, Option.guard_eq_some', exists_const, Option.some.injEq,
      Prod.mk.injEq] at hrest
    obtain ⟨hzero, htop, hleft⟩ := hrest
    have hrank : (pad.low.map Amount.value).length = rank := by rw [List.length_map, hlength]
    rw [hrank] at haxes
    have hspatial (dim : Nat) (hdim : dim < rank) :
        (pad.low.map Amount.value).getD dim 0 = (spatialAmounts rank axis padTop padLeft).getD dim 0 ∧
          (pad.high.map Amount.value).getD dim 0 = (pad.low.map Amount.value).getD dim 0 := by
      have hdim := haxes dim hdim
      rw [getD_spatialAmounts, ← htop, ← hleft]
      by_cases hheight : dim = axis
      · rw [if_pos (.inl hheight)] at hdim
        rw [if_pos hheight, ← hheight]
        exact ⟨rfl, hdim.1.symm⟩
      · by_cases hwidth : dim = axis + 1
        · rw [if_pos (.inr hwidth)] at hdim
          rw [if_neg hheight, if_pos hwidth, ← hwidth]
          exact ⟨rfl, hdim.1.symm⟩
        · rw [if_neg (by omega)] at hdim
          rw [if_neg hheight, if_neg hwidth]
          exact ⟨hdim.1, hdim.2.trans hdim.1.symm⟩
    have hvalues : pad.low.map Amount.value = spatialAmounts rank axis padTop padLeft := by
      refine ext_getD ?_ fun dim hdim => (hspatial dim (hrank ▸ hdim)).1
      rw [hrank, length_spatialAmounts haxis]
    have heven : pad.low.map Amount.value = pad.high.map Amount.value :=
      ext_getD hsizes fun dim hdim => (hspatial dim (hrank ▸ hdim)).2.symm
    have hheight := haxes axis (by omega)
    have hwidth := haxes (axis + 1) (by omega)
    rw [if_pos (.inl rfl), htop] at hheight
    rw [if_pos (.inr rfl), hleft] at hwidth
    exact ⟨⟨hheight.2.1, hwidth.2.1⟩, hvalues, fill,
      ⟨amounts_eq hlow hhigh heven, hlow, ⟨inside, hyield⟩, hzero⟩⟩

theorem sinkFill_low : (pad.sinkFill float).low = pad.low := by
  unfold PadOp.sinkFill
  split <;> rfl

theorem sinkFill_high : (pad.sinkFill float).high = pad.high := by
  unfold PadOp.sinkFill
  split <;> rfl

/-- A fill that is sunk stays a zero. -/
theorem PadOp.EvenZero.sinkFill {fill : α} (h : pad.EvenZero float fill) :
    ∃ fill', (pad.sinkFill float).EvenZero float fill' := by
  obtain ⟨inside, hyield⟩ := h.constant
  cases inside with
  | true =>
    have hsame : pad.sinkFill float = pad := by
      unfold PadOp.sinkFill
      rw [hyield]
    exact ⟨fill, hsame.symm ▸ h⟩
  | false =>
    refine ⟨float.zero, ?_, ?_, ⟨true, ?_⟩, float.isZero_zero⟩
    · rw [sinkFill_low, sinkFill_high, h.even]
    · rw [sinkFill_low, h.static]
    · unfold PadOp.sinkFill
      rw [hyield]

/-- What a match has found. -/
structure Matched (float : FloatType α) (pads : List (PadOp α)) (conv : Conv) (mark : Mark)
    (input source : Value) (pad : PadOp α) : Prop where
  reads : conv.inputs[0]? = some input
  walked : (walk 4 input).2 = .pad mark.pad source
  found : pads[mark.pad]? = some pad
  rank : 4 ≤ (pad.shape (source.shape pads)).length ∧ (pad.shape (source.shape pads)).length ≤ 5
  amounts : matchSymmetricSpatialPad float pad
    (conv.op.spatialH + ((pad.shape (source.shape pads)).length - 4),
      conv.op.spatialH + 1 + ((pad.shape (source.shape pads)).length - 4)) =
    some (mark.padTop, mark.padLeft)

theorem matchAndRewrite_some {pads : List (PadOp α)} {conv : Conv} {mark : Mark}
    (h : matchAndRewrite float pads conv = some mark) :
    ∃ input source pad, Matched float pads conv mark input source pad := by
  unfold matchAndRewrite at h
  simp only [Option.bind_eq_bind, Option.bind_eq_some_iff, Option.guard_eq_some', exists_const] at h
  obtain ⟨-, -, input, hinput, h⟩ := h
  cases hwalk : (walk 4 input).2 with
  | result shape => simp only [hwalk, reduceCtorEq] at h
  | reshape op source => simp only [hwalk, reduceCtorEq] at h
  | pad index source =>
    simp only [hwalk, Option.bind_eq_some_iff, Option.guard_eq_some', exists_const, Option.pure_def,
      Option.some.injEq, Prod.exists] at h
    obtain ⟨pad, hpad, hrank, padTop, padLeft, hamounts, rfl⟩ := h
    have hshape : (Value.pad index source).shape pads = pad.shape (source.shape pads) := by
      rw [Value.shape, hpad]
      rfl
    rw [hshape] at hrank hamounts
    exact ⟨input, source, pad, hinput, hwalk, hpad, hrank, hamounts⟩

end Checks

/-! ### The marks a run leaves -/

section Run

variable {float : FloatType α} {module : Module α} {i : Nat} {before after : Conv} {padTop padLeft : Int}

theorem runOnOperation_convs (hbefore : module.convs[i]? = some before) :
    (module.runOnOperation float).convs[i]? =
      some (((matchAndRewrite float module.pads before).map before.mark).getD before) := by
  unfold Module.runOnOperation
  dsimp only
  rw [List.getElem?_map, hbefore]
  rfl

/-- A convolution that a run has marked was matched, and its pad's fill is sunk. -/
theorem marked_matched (hbefore : module.convs[i]? = some before)
    (hafter : (module.runOnOperation float).convs[i]? = some after) (hunmarked : before.padTop = none)
    (htop : after.padTop = some padTop) (hleft : after.padLeft = some padLeft) :
    ∃ index, matchAndRewrite float module.pads before = some ⟨padTop, padLeft, index⟩ ∧
      after = before.mark ⟨padTop, padLeft, index⟩ := by
  rw [runOnOperation_convs hbefore, Option.some.injEq] at hafter
  cases hmark : matchAndRewrite float module.pads before with
  | none =>
    rw [hmark] at hafter
    obtain rfl : before = after := hafter
    rw [hunmarked] at htop
    cases htop
  | some mark =>
    rw [hmark] at hafter
    obtain rfl : before.mark mark = after := hafter
    obtain ⟨top, left, index⟩ := mark
    obtain rfl : top = padTop := Option.some.inj htop
    obtain rfl : left = padLeft := Option.some.inj hleft
    exact ⟨index, rfl, rfl⟩

theorem runOnOperation_pad {mark : Mark} {pad : PadOp α} (hmem : before ∈ module.convs)
    (hmark : matchAndRewrite float module.pads before = some mark)
    (hpad : module.pads[mark.pad]? = some pad) :
    (module.runOnOperation float).pads[mark.pad]? = some (pad.sinkFill float) := by
  have hclaimed : mark.pad ∈ (module.convs.map (matchAndRewrite float module.pads)).filterMap
      fun mark => mark.map Mark.pad :=
    List.mem_filterMap.mpr ⟨some mark, List.mem_map.mpr ⟨before, hmem, hmark⟩, rfl⟩
  unfold Module.runOnOperation
  dsimp only
  rw [List.getElem?_mapIdx, hpad, Option.map_some, if_pos hclaimed]

/-- A run changes no extents. -/
theorem runOnOperation_shape (value : Value) :
    value.shape (module.runOnOperation float).pads = value.shape module.pads := by
  induction value with
  | result shape => rfl
  | reshape op source ih => rw [Value.shape, ih, Value.shape]
  | pad index source ih =>
    have hsame : (module.runOnOperation float).pads[index]?.map
        (fun op => op.shape (source.shape module.pads)) =
          module.pads[index]?.map fun op => op.shape (source.shape module.pads) := by
      unfold Module.runOnOperation
      dsimp only
      rw [List.getElem?_mapIdx, Option.map_map]
      congr 1
      funext op
      by_cases hclaimed : index ∈ (module.convs.map (matchAndRewrite float module.pads)).filterMap
          fun mark => mark.map Mark.pad
      · simp only [Function.comp_apply, if_pos hclaimed, PadOp.shape, sinkFill_low, sinkFill_high]
      · simp only [Function.comp_apply, if_neg hclaimed]
    rw [Value.shape, ih, hsame, Value.shape]

theorem length_axesOf {low high : List Int} {shape : List Nat} (hlow : low.length = shape.length)
    (hhigh : high.length = shape.length) : (axesOf low shape high).length = shape.length := by
  induction shape generalizing low high with
  | nil =>
    obtain rfl : low = [] := List.eq_nil_of_length_eq_zero hlow
    rfl
  | cons n shape ih => cases low with
    | nil => cases hlow
    | cons l low => cases high with
      | nil => cases hhigh
      | cons h high => exact congrArg Nat.succ (ih (Nat.succ.inj hlow) (Nat.succ.inj hhigh))

/-- The reshapes of a convolution's input carry the pad's axes to its own height and width. -/
def CarriesPadding (pads : List (PadOp α)) (conv : Conv) (padTop padLeft : Int) : Prop :=
  ∃ input index source, conv.inputs[0]? = some input ∧ (walk 4 input).2 = .pad index source ∧
    Carries conv.op (walk 4 input).1 (source.shape pads) ((Value.pad index source).shape pads)
      (input.shape pads) (conv.op.spatialH + (((Value.pad index source).shape pads).length - 4)) padTop
      padLeft

section Found

variable {pads : List (PadOp α)} {conv : Conv} {mark : Mark} {input source : Value} {pad sunk : PadOp α}

theorem Matched.shape (h : Matched float pads conv mark input source pad) :
    (Value.pad mark.pad source).shape pads = pad.shape (source.shape pads) := by
  rw [Value.shape, h.found]
  rfl

/-- What a match has checked of a pad in a verified module. -/
theorem Matched.checked (h : Matched float pads conv mark input source pad)
    (hinput : input.Verified pads) :
    (pad.shape (source.shape pads)).length = (source.shape pads).length ∧
      4 ≤ (source.shape pads).length ∧ (0 ≤ mark.padTop ∧ 0 ≤ mark.padLeft) ∧
      pad.low.map Amount.value = spatialAmounts (source.shape pads).length
        (conv.op.spatialH + ((source.shape pads).length - 4)) mark.padTop mark.padLeft ∧
      ∃ fill, pad.EvenZero float fill := by
  have hwalk : Through (walk 4 input).1 ((walk 4 input).2.shape pads) (input.shape pads) ∧
      (walk 4 input).2.Verified pads := walk_through hinput
  rw [h.walked] at hwalk
  obtain ⟨-, ⟨pad', hpad', hlow, hhigh⟩, -⟩ := hwalk
  obtain rfl : pad' = pad := Option.some.inj (hpad'.symm.trans h.found)
  have hrank : (pad'.shape (source.shape pads)).length = (source.shape pads).length := by
    rw [PadOp.shape, List.length_map, length_axesOf]
    · rw [List.length_map, hlow]
    · rw [List.length_map, hhigh]
  have hamounts := h.amounts
  have hrange := h.rank
  have hop := spatialH_lt conv.op
  rw [hrank] at hamounts hrange
  rw [Nat.add_right_comm] at hamounts
  exact ⟨hrank, hrange.1, matchSymmetricSpatialPad_some (by omega) hlow hamounts⟩

/-- A pad that a match has found is read as the mark says exactly when its padding is carried. -/
theorem Matched.reads_iff {fill : α} (h : Matched float pads conv mark input source pad)
    (hinput : input.Verified pads) (hlow : sunk.low = pad.low) (hhigh : sunk.high = pad.high)
    (hzero : float.isZero fill = true) :
    ReadsPadded conv.op (walk 4 input).1 sunk fill (source.shape pads) mark.padTop mark.padLeft ↔
      Carries conv.op (walk 4 input).1 (source.shape pads) (pad.shape (source.shape pads))
        (input.shape pads) (conv.op.spatialH + ((pad.shape (source.shape pads)).length - 4)) mark.padTop
        mark.padLeft := by
  obtain ⟨hrank, hrange, ⟨htop, hleft⟩, hvalues, _, heven⟩ := h.checked hinput
  have hthrough : Through (walk 4 input).1 ((walk 4 input).2.shape pads) (input.shape pads) :=
    (walk_through hinput).1
  have hcarried (x : Tensor α) (hx : x.shape = (walk 4 input).2.shape pads) :
      (carried (walk 4 input).1 x).shape = input.shape pads := carried_shape 4 hinput hx
  have hsame : sunk.shape (source.shape pads) = pad.shape (source.shape pads) := by
    rw [PadOp.shape, PadOp.shape, hlow, hhigh]
  have hother : float.one ≠ fill := by
    rintro rfl
    rw [float.isZero_one] at hzero
    cases hzero
  have hop := spatialH_lt conv.op
  obtain ⟨top, htop⟩ := Int.eq_ofNat_of_zero_le htop
  obtain ⟨left, hleft⟩ := Int.eq_ofNat_of_zero_le hleft
  rw [htop, hleft] at hvalues ⊢
  rw [h.walked, h.shape, ← hsame] at hthrough hcarried
  rw [hrank, ← hsame]
  exact readsPadded_iff (by omega) (by rw [hlow, hvalues]) (by rw [hhigh, ← heven.even, hvalues]) hthrough
    hcarried hother

/-- So a mark is sound over the module's pads or over ones whose fills are sunk. -/
theorem Matched.soundly_iff {pads' : List (PadOp α)} {marked : Conv}
    (h : Matched float pads conv mark input source pad) (hinput : input.Verified pads)
    (hop : marked.op = conv.op) (hinputs : marked.inputs = conv.inputs)
    (hsunk : pads'[mark.pad]? = some sunk) (hlow : sunk.low = pad.low) (hhigh : sunk.high = pad.high)
    (hsource : source.shape pads' = source.shape pads) (hfill : ∃ fill, sunk.EvenZero float fill) :
    SoundlyMarked float pads' marked mark.padTop mark.padLeft ↔
      CarriesPadding pads conv mark.padTop mark.padLeft := by
  unfold SoundlyMarked CarriesPadding
  rw [hop, hinputs]
  constructor
  · rintro ⟨input', index', source', pad', fill, hreads, hwalk, hpad, heven, hpadded⟩
    obtain rfl : input' = input := Option.some.inj (hreads.symm.trans h.reads)
    rw [h.walked] at hwalk
    obtain ⟨rfl, rfl⟩ := Value.pad.inj hwalk
    obtain rfl : pad' = sunk := Option.some.inj (hpad.symm.trans hsunk)
    rw [hsource] at hpadded
    refine ⟨input', _, _, h.reads, h.walked, ?_⟩
    rw [h.shape]
    exact (h.reads_iff hinput hlow hhigh heven.zero).mp hpadded
  · rintro ⟨input', index', source', hreads, hwalk, hcarries⟩
    obtain rfl : input' = input := Option.some.inj (hreads.symm.trans h.reads)
    rw [h.walked] at hwalk
    obtain ⟨rfl, rfl⟩ := Value.pad.inj hwalk
    obtain ⟨fill, heven⟩ := hfill
    refine ⟨input', _, _, _, fill, h.reads, h.walked, hsunk, heven, ?_⟩
    rw [hsource]
    rw [h.shape] at hcarries
    exact (h.reads_iff hinput hlow hhigh heven.zero).mpr hcarries

end Found

/-- **In a verified module a run marks a convolution only for a pad that passes the checks, and the mark is
sound, before the fills are sunk and after, exactly when the reshapes of its input carry the pad's axes to its
own height and width.** -/
theorem marked_soundly_iff (hverified : module.Verified) (hbefore : module.convs[i]? = some before)
    (hafter : (module.runOnOperation float).convs[i]? = some after) (hunmarked : before.padTop = none)
    (htop : after.padTop = some padTop) (hleft : after.padLeft = some padLeft) :
    PadChecked float module.pads before padTop padLeft ∧
      (SoundlyMarked float module.pads before padTop padLeft ∧
          SoundlyMarked float (module.runOnOperation float).pads after padTop padLeft ↔
        CarriesPadding module.pads before padTop padLeft) := by
  obtain ⟨index, hmark, rfl⟩ := marked_matched hbefore hafter hunmarked htop hleft
  have hmem : before ∈ module.convs := List.mem_of_getElem? hbefore
  obtain ⟨input, source, pad, hmatched⟩ := matchAndRewrite_some hmark
  have hinput := (hverified before hmem input hmatched.reads).1
  have hsunk := runOnOperation_pad hmem hmark hmatched.found
  obtain ⟨-, -, -, hvalues, fill, heven⟩ := hmatched.checked hinput
  refine ⟨⟨input, index, source, pad, fill, hmatched.reads, hmatched.walked, hmatched.found, heven,
    hvalues⟩, ?_⟩
  have hfirst : SoundlyMarked float module.pads before padTop padLeft ↔
      CarriesPadding module.pads before padTop padLeft :=
    hmatched.soundly_iff hinput rfl rfl hmatched.found rfl rfl rfl ⟨fill, heven⟩
  have hlast : SoundlyMarked float (module.runOnOperation float).pads
      (before.mark ⟨padTop, padLeft, index⟩) padTop padLeft ↔
        CarriesPadding module.pads before padTop padLeft :=
    hmatched.soundly_iff hinput rfl rfl hsunk sinkFill_low sinkFill_high (runOnOperation_shape source)
      heven.sinkFill
  rw [hfirst, hlast, and_self_iff]

end Run

/-- Half precision, by bit patterns. -/
def binary16 : FloatType (BitVec 16) where
  isZero bits := bits &&& 0x7fff#16 == 0#16
  zero := 0#16
  one := 0x3c00#16
  isZero_zero := by decide
  isZero_one := by decide

/-- A pad of one on the axes after the second of five, by a zero from above. -/
def evenPad : PadOp (BitVec 16) where
  low := [.static 0, .static 0, .static 1, .static 1, .static 0]
  high := [.static 0, .static 0, .static 1, .static 1, .static 0]
  blocks := 1
  yield := some (.constant 0#16 false)

/-- A channels-last convolution of the padded form, its two unit axes collapsed. -/
def collapsedConv : Conv where
  op := .conv2DNhwcHwcf
  inputs := [.reshape (.collapse [2, 1, 1, 1]) (.pad 0 (.result [1, 1, 2, 6, 16])), .result [3, 3, 16, 32]]
  uses := []
  padTop := none
  padLeft := none

theorem marked_soundly_collapsed :
    PadChecked binary16 [evenPad] collapsedConv 1 1 ∧
      (SoundlyMarked binary16 [evenPad] collapsedConv 1 1 ∧
          SoundlyMarked binary16 ((⟨[evenPad], [collapsedConv]⟩ : Module _).runOnOperation binary16).pads
            (collapsedConv.mark ⟨1, 1, 0⟩) 1 1 ↔
        CarriesPadding [evenPad] collapsedConv 1 1) := by
  have hverified : (⟨[evenPad], [collapsedConv]⟩ : Module _).Verified := by
    intro conv hconv input hinput
    obtain rfl := List.mem_singleton.mp hconv
    obtain rfl := Option.some.inj hinput
    exact ⟨⟨⟨rfl, .inl rfl⟩, ⟨evenPad, rfl, rfl, rfl⟩, trivial⟩, rfl⟩
  have hbefore : (⟨[evenPad], [collapsedConv]⟩ : Module (BitVec 16)).convs[0]? = some collapsedConv := rfl
  exact marked_soundly_iff hverified hbefore (by decide) rfl rfl rfl

/-- A padded image of four rows of eight, read as eight rows of four. -/
def turnedConv : Conv where
  op := .conv2DNhwcHwcf
  inputs := [.reshape (.expand [1, 2, 1] [1, 8, 4, 1])
    (.reshape (.collapse [2, 2, 1]) (.pad 0 (.result [1, 1, 2, 6, 1]))), .result [3, 3, 1, 32]]
  uses := []
  padTop := none
  padLeft := none

/-- Reshapes that move the rows are walked through, and the convolution is marked with the pad's amounts. -/
theorem turned_marked_unsoundly : ¬ ∀ (float : FloatType (BitVec 16)) (module : Module (BitVec 16)) (i : Nat)
    (before after : Conv) (padTop padLeft : Int), module.Verified → module.convs[i]? = some before →
      (module.runOnOperation float).convs[i]? = some after → before.padTop = none →
        after.padTop = some padTop → after.padLeft = some padLeft →
          SoundlyMarked float module.pads before padTop padLeft := by
  intro h
  have hverified : (⟨[evenPad], [turnedConv]⟩ : Module _).Verified := by
    intro conv hconv input hinput
    obtain rfl := List.mem_singleton.mp hconv
    obtain rfl := Option.some.inj hinput
    exact ⟨⟨⟨rfl, .inl rfl⟩, ⟨rfl, .inl rfl⟩, ⟨evenPad, rfl, rfl, rfl⟩, trivial⟩, rfl⟩
  obtain ⟨input, index, source, pad, fill, hreads, hwalk, hpad, heven, hpadded⟩ :=
    h binary16 ⟨[evenPad], [turnedConv]⟩ 0 turnedConv (turnedConv.mark ⟨1, 1, 0⟩) 1 1 hverified rfl
      (by decide) rfl rfl rfl
  obtain rfl := Option.some.inj hreads
  obtain ⟨rfl, rfl⟩ : 0 = index ∧ Value.result [1, 1, 2, 6, 1] = source := Value.pad.inj hwalk
  obtain rfl : evenPad = pad := Option.some.inj hpad
  have hother : binary16.one ≠ fill := by
    rintro rfl
    have hzero := heven.zero
    rw [binary16.isZero_one] at hzero
    cases hzero
  have hinput := (hverified turnedConv List.mem_cons_self _ rfl).1
  have hthrough : Through [.expand [1, 2, 1] [1, 8, 4, 1], .collapse [2, 2, 1]]
      (evenPad.shape [1, 1, 2, 6, 1]) [1, 8, 4, 1] :=
    ⟨_, ⟨_, rfl, rfl, .inl rfl⟩, rfl, .inl rfl⟩
  have hcarried (x : Tensor (BitVec 16)) (hx : x.shape = [1, 1, 4, 8, 1]) :
      (carried [.expand [1, 2, 1] [1, 8, 4, 1], .collapse [2, 2, 1]] x).shape = [1, 8, 4, 1] :=
    carried_shape 4 hinput hx
  have hcarries : Carries .conv2DNhwcHwcf [.expand [1, 2, 1] [1, 8, 4, 1], .collapse [2, 2, 1]]
      [1, 1, 2, 6, 1] [1, 1, 4, 8, 1] [1, 8, 4, 1] 2 (1 : Nat) (1 : Nat) :=
    (readsPadded_iff (by decide) (by decide) (by decide) hthrough hcarried hother).mp hpadded
  -- four rows would have to be eight
  have hrows := (hcarries.axes (by decide)).1 (by decide)
  exact absurd hrows.1 (by decide)

end IreeRocket.Plugin.FoldConvPad
