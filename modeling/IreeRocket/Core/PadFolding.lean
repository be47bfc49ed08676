import IreeRocket.Core.AdmissionSound
import IreeRocket.Core.AlignedRows

/-!
# Folding a pad into the convolution

`rocket-plan-candidates` plans a convolution while its padding is still an explicit `tensor.pad`: the
padded extents, and zero padding. `rocket-fold-conv-pad` then hands the padding to the hardware, and
the runtime plans the unpadded extents with it. Both requests pass the same checks of channels, kernel
and coefficients and have the same output extents. The rows are another matter: the capacity, the
bank partition and, on a dense layout, the input rows a tile may begin at are those of the unpadded
image, so the grid is cut anew. `FoldFits` says on the extents when it can be, `FoldReaches` what it
takes at least, and `padFold_keeps_plan` that a planned candidate stays planned between the two.
-/

namespace IreeRocket

namespace Conv

/-! ### The unpadded image -/

/-- A column as wide as a kernel over a stride holds the image, or a kernel span and a stride block,
under a number of data banks. -/
def ColumnHolds (shape : Shape) (kernels : Kernels) (dataBanks : Nat) : Prop :=
  min (shape.stride + kernels.2 - 1) shape.width ≤ shape.maxTileInputWidth ∧
    RowsFit shape kernels (min (shape.rowCapacity (min (shape.stride + kernels.2 - 1) shape.width) dataBanks)
      (shape.maxFeatureGrainInputRows kernels))

section Image

variable {policy : PlanningPolicy} {shape : Shape} {kernels : Kernels}

/-- The elements of a dense layout are whole bytes: `int4` channels come in thirty-twos. -/
theorem Shape.WellFormed.elementBytes_pos (h : shape.WellFormed policy) (hdense : shape.layout = .dense) :
    0 < shape.precision.elementBytes := by
  have hchannels : shape.inChannels ≤ 4 := by
    unfold Shape.layout maxDenseChannels at hdense
    split_ifs at hdense with hle
    exact hle
  cases hprecision : shape.precision with
  | int4 =>
    have hatoms := h.int4_atoms hprecision
    have hpos := h.in_pos
    omega
  | _ => simp [Precision.elementBytes, Precision.elementBits]

theorem rowCapacity_anti (hbytes : shape.layout = .dense → 0 < shape.precision.elementBytes) {a b : Nat}
    (ha : 0 < a) (hab : a ≤ b) (dataBanks : Nat) :
    shape.rowCapacity b dataBanks ≤ shape.rowCapacity a dataBanks :=
  min_le_min (Nat.div_le_div_left (shape.rowBytes_mono hab) (shape.rowBytes_pos hbytes ha))
    (Nat.div_le_div_left (shape.cbufInputWidth_mono hab) (ha.trans_le (shape.le_cbufInputWidth a)))

/-- Then every column of one output fits. -/
theorem ColumnHolds.columnFits {dataBanks : Nat} (h : ColumnHolds shape kernels dataBanks)
    (hs : shape.WellFormed policy) (hk : KernelFits shape kernels)
    (hrow : shape.rowBytes shape.width < 2 ^ 32) (hbanks : 1 ≤ dataBanks ∧ dataBanks < cbufBanks)
    {c : ColumnTile} (hc : ColumnTile.fromOutputRange shape kernels c.outFirst 1 = .ok c) :
    ColumnFits shape kernels dataBanks c := by
  have hcount := (ColumnTile.fromOutputRange_ok hc).2.1
  have hwidth := inCols_bounds hs hk (show ColumnTile.fromOutputRange shape kernels c.outFirst c.outCols =
    .ok c by rw [hcount]; exact hc)
  have hcols : c.inCols ≤ min (shape.stride + kernels.2 - 1) shape.width :=
    Nat.le_min.mpr ⟨inCols_one_le hk hs.stride_pos hc, hwidth.2⟩
  refine ⟨hcols.trans h.1, _, shape.capacity_eq hs.elementBytes_pos hbanks hwidth hrow, ?_⟩
  have hcapacity := min_le_min_right (shape.maxFeatureGrainInputRows kernels)
    (rowCapacity_anti hs.elementBytes_pos hwidth.1 hcols dataBanks)
  exact h.2.imp (fun hwhole => hwhole.trans hcapacity) fun hspan => hspan.trans hcapacity

/-- The partition of the banks is granted to an image of other extents and padding too: what is refused
is a kernel, a stride, channels or coefficients. -/
theorem cbufPartition_resized {resized : Shape} {banks : Nat × Nat}
    (hresized : ∃ width height padding, resized = { shape with width, height, padding })
    (hbytes : resized.layout = .dense → 0 < resized.precision.elementBytes) (hwidth : 0 < resized.width)
    (hrow : resized.rowBytes resized.width < 2 ^ 32)
    (hkernel : ∃ kernel, resized.tryKernelProgramming kernels = .ok kernel)
    (h : ConvPlan.cbufPartition policy shape kernels = .ok banks) :
    ∃ banks', ConvPlan.cbufPartition policy resized kernels = .ok banks' ∧
      1 ≤ banks'.1 ∧ banks'.1 < cbufBanks := by
  obtain ⟨width, height, padding, rfl⟩ := hresized
  have hdemand (banks : Nat × Nat) (h : shape.tryDemandBasedCbufPartition kernels = .ok banks) :
      ∃ banks', { shape with width, height, padding }.tryDemandBasedCbufPartition kernels = .ok banks' ∧
        1 ≤ banks'.1 ∧ banks'.1 < cbufBanks := by
    unfold Shape.tryDemandBasedCbufPartition at h
    simp only [bind_ok, refuseUnless_ok, exists_const] at h
    obtain ⟨dataBanks, weightBanks, hbanks, hrange, -⟩ :=
      tryDemandBasedCbufPartition_isOk (s := { shape with width, height, padding }) hbytes
        hwidth hrow h.1
    exact ⟨_, hbanks, hrange⟩
  have hcaptured (captured : Nat × Nat) (hpos : 1 ≤ captured.2) :
      1 ≤ (unstarvedLargeKernelPartition { shape with width, height, padding } kernels captured).1 ∧
        (unstarvedLargeKernelPartition { shape with width, height, padding } kernels captured).1 <
          cbufBanks := by
    unfold unstarvedLargeKernelPartition cbufBanks
    dsimp only
    omega
  unfold ConvPlan.cbufPartition at h ⊢
  split_ifs at h ⊢ with hsquare
  · obtain ⟨hstride, -, hlimit, h⟩ := nonSquareCbufPartition_ok.mp h
    obtain ⟨banks', hbanks, hrange⟩ := hdemand banks h
    exact ⟨banks', nonSquareCbufPartition_ok.mpr ⟨hstride, hkernel, hlimit, hbanks⟩, hrange⟩
  · unfold ConvPlan.squarePartition at h ⊢
    split at h
    iterate 2
      · exact hdemand banks h
    iterate 5
      · obtain ⟨hstride, hlimit, h⟩ := evenSquareCbufPartition_ok.mp h
        obtain ⟨banks', hbanks, hrange⟩ := hdemand banks h
        exact ⟨banks', evenSquareCbufPartition_ok.mpr ⟨hstride, hlimit, hbanks⟩, hrange⟩
    · simp only [bind_ok] at h ⊢
      obtain ⟨u, hcheck, h⟩ := h
      obtain ⟨banks', hbanks, hrange⟩ := hdemand banks h
      exact ⟨banks', ⟨u, hcheck, hbanks⟩, hrange⟩
    · simp only [bind_ok] at h ⊢
      obtain ⟨u, hcheck, h⟩ := h
      split_ifs at h with hlimit
      · obtain ⟨banks', hbanks, hrange⟩ := hdemand banks h
        exact ⟨banks', ⟨u, hcheck, (if_pos hlimit).trans hbanks⟩, hrange⟩
      · exact ⟨_, ⟨u, hcheck, if_neg hlimit⟩, hcaptured (8, 4) (by decide)⟩
    · simp only [bind_ok] at h ⊢
      obtain ⟨u, hcheck, -⟩ := h
      exact ⟨_, ⟨u, hcheck, rfl⟩, hcaptured _ (by split_ifs <;> decide)⟩
    · simp only [bind_ok] at h ⊢
      obtain ⟨u, hcheck, -⟩ := h
      exact ⟨_, ⟨u, hcheck, rfl⟩, hcaptured _ (by split_ifs <;> decide)⟩
    · cases h

end Image

section Dense

variable {shape : Shape} {kernels : Kernels}

end Dense

end Conv

open Conv

/-! ### The two requests -/

namespace ConvRequest

/-- What `rocket_plan_conv` answers: the shape of the request, planned. -/
def tryPlan (policy : PlanningPolicy) (r : ConvRequest) : Planner ConvPlan := do
  let shape ← r.tryShape policy
  ConvPlan.tryNew policy shape r.kernels

/-- The request `planAt` makes: the pad is still a `tensor.pad` in front of the convolution. -/
def explicitPad (r : ConvRequest) (padding : Padding) : ConvRequest :=
  { r with
    width := r.width + 2 * padding.2
    height := r.height + 2 * padding.1
    padding := some (0, 0) }

/-- The request of the runtime once the pad is folded. -/
def hardwarePad (r : ConvRequest) (padding : Padding) : ConvRequest :=
  { r with padding := some padding }

/-- Where the explicit request is planned the folded one is, at the same output extents. -/
def FoldKeepsPlan (policy : PlanningPolicy) (r : ConvRequest) (padding : Padding) : Prop :=
  ∀ planned, (r.explicitPad padding).tryPlan policy = .ok planned →
    ∃ plan, (r.hardwarePad padding).tryPlan policy = .ok plan ∧
      plan.shape.outputWidth r.kernels = planned.shape.outputWidth r.kernels ∧
      plan.shape.outputHeight r.kernels = planned.shape.outputHeight r.kernels

/-- When the unpadded image is planned. A dense image fits the granted rows whole, or is cut at rows that
begin at a feature atom, with room for the cuts to move; the columns of a surface layout hold a kernel
span. The request's counts are `u32`s, and so are the bytes of a row. -/
structure FoldFits (policy : PlanningPolicy) (r : ConvRequest) (padding : Padding) : Prop where
  extents : 0 < r.width ∧ 0 < r.height
  words : r.admission.stride < 2 ^ 32 ∧ r.admission.inChannels < 2 ^ 32 ∧ r.admission.outChannels < 2 ^ 32
  row : (r.hardwarePad padding).shape.rowBytes r.width < 2 ^ 32
  dense : (r.hardwarePad padding).shape.layout = .dense → ∀ banks,
    ConvPlan.cbufPartition policy (r.hardwarePad padding).shape r.kernels = .ok banks →
      (Tile.whole (r.hardwarePad padding).shape r.kernels).inRows ≤
          (r.hardwarePad padding).shape.fullWidthRows r.kernels banks.1 ∨
        AlignedRowsFit (r.hardwarePad padding).shape r.kernels
          ((r.hardwarePad padding).shape.fullWidthRows r.kernels banks.1)
  surfaces : (r.hardwarePad padding).shape.layout = .surfaces → ∀ banks,
    ConvPlan.cbufPartition policy (r.hardwarePad padding).shape r.kernels = .ok banks →
      ColumnHolds (r.hardwarePad padding).shape r.kernels banks.1

section Fold

variable {policy : PlanningPolicy} {r : ConvRequest} {padding : Padding}

/-- What the constructors accept: the tensor, the padding, the activation and the depthwise flag. -/
theorem tryShape_padded (hpadding : r.padding = some padding) {s : Shape} :
    r.tryShape policy = .ok s ↔
      (∃ base, Shape.tryWithPrecision policy r.width r.height r.admission.stride
        r.admission.inChannels r.admission.outChannels r.admission.precision = .ok base) ∧
      (padding.1 ≤ 15 ∧ padding.2 ≤ 15) ∧
      (!r.admission.precision.writesAccumulators ∨ r.activation = .none) ∧
      (r.admission.depthwise → ∃ base, Shape.tryWithDepthwise policy
        { r.shape with depthwise := false } = .ok base) ∧
      s = r.shape := by
  have hshape : ∀ {base : Shape}, Shape.tryWithPrecision policy r.width r.height
      r.admission.stride r.admission.inChannels r.admission.outChannels r.admission.precision =
        .ok base → base = { r.shape with padding := none, activation := .none, depthwise := false } :=
    fun h => (Shape.tryWithPrecision_ok h).2.2.2.2.2.2.2.2
  unfold tryShape tryPad
  simp only [hpadding, bind_ok]
  constructor
  · rintro ⟨base, hbase, padded, hpadded, active, hactive, h⟩
    obtain ⟨hpad, rfl⟩ := Shape.tryWithPadding_ok hpadded
    obtain rfl := hshape hbase
    unfold Shape.tryWithActivation at hactive
    simp only [bind_ok, refuseUnless_ok, pure_ok, exists_const] at hactive
    obtain ⟨hlinear, rfl⟩ := hactive
    refine ⟨⟨_, hbase⟩, hpad, hlinear, ?_⟩
    split_ifs at h with hd
    · refine ⟨fun _ => ⟨s, by simpa [shape, hpadding] using h⟩, ?_⟩
      rw [(Shape.tryWithDepthwise_ok h).2.2.2]
      simp [shape, hpadding, hd]
    · rw [pure_ok] at h
      exact ⟨fun hd' => absurd hd' hd, by rw [← h]; simp [shape, hpadding, hd]⟩
  · rintro ⟨⟨base, hbase⟩, hpad, hlinear, hdepthwise, rfl⟩
    obtain rfl := hshape hbase
    refine ⟨_, hbase, { r.shape with activation := .none, depthwise := false }, ?_,
      { r.shape with depthwise := false }, ?_, ?_⟩
    · unfold Shape.tryWithPadding
      simp only [bind_ok, refuseUnless_ok, pure_ok, exists_const]
      exact ⟨hpad, by simp [shape, hpadding]⟩
    · unfold Shape.tryWithActivation
      simp only [bind_ok, refuseUnless_ok, pure_ok, exists_const]
      exact ⟨hlinear, rfl⟩
    · split_ifs with hd
      · obtain ⟨base, hbase⟩ := hdepthwise hd
        rw [hbase, (Shape.tryWithDepthwise_ok hbase).2.2.2]
        simp [shape, hd]
      · rw [pure_ok]
        simp [shape, hd]

/-- A smaller image passes the tensor checks. -/
theorem tryWithPrecision_smaller {width height width' height' stride inChannels outChannels : Nat}
    {precision : Precision} (hw : 0 < width) (hh : 0 < height) (hwidth : width ≤ width')
    (hheight : height ≤ height')
    (h : ∃ base, Shape.tryWithPrecision policy width' height' stride inChannels outChannels
      precision = .ok base) :
    ∃ base, Shape.tryWithPrecision policy width height stride inChannels outChannels precision =
      .ok base := by
  have hsurface := Nat.mul_le_mul hwidth hheight
  unfold Shape.tryWithPrecision at *
  simp only [bind_ok, refuseUnless_ok, pure_ok, exists_const] at *
  obtain ⟨base, -, hstride, hpos, hin, hout, hint4, hzero, hsize, -⟩ := h
  unfold featureAtomBytes at *
  exact ⟨_, ⟨hw, hh⟩, hstride, hpos, hin, hout, hint4, hzero, by omega, rfl⟩

/-- The constructors accept the folded request with the explicit one, if it has an image. -/
theorem tryShape_fold (hpadding : padding.1 ≤ 15 ∧ padding.2 ≤ 15) {s : Shape}
    (h : (r.explicitPad padding).tryShape policy = .ok s) :
    s = (r.explicitPad padding).shape ∧
      ((0 < r.width ∧ 0 < r.height) ↔
        (r.hardwarePad padding).tryShape policy = .ok (r.hardwarePad padding).shape) := by
  obtain ⟨hbase, -, hlinear, hdepthwise, rfl⟩ := (tryShape_padded rfl).mp h
  refine ⟨rfl, fun hextents => ?_, fun hfolded => ?_⟩
  · refine (tryShape_padded rfl).mpr ⟨?_, hpadding, hlinear, fun hd => ?_, rfl⟩
    · exact tryWithPrecision_smaller hextents.1 hextents.2 (Nat.le_add_right _ _)
        (Nat.le_add_right _ _) hbase
    · obtain ⟨base, hbase⟩ := hdepthwise hd
      unfold Shape.tryWithDepthwise at hbase ⊢
      simp only [bind_ok, refuseUnless_ok, pure_ok, exists_const] at hbase ⊢
      exact ⟨_, hbase.1, hbase.2.1, hbase.2.2.1, rfl⟩
  · obtain ⟨⟨base, hbase⟩, -⟩ := (tryShape_padded rfl).mp hfolded
    exact (Shape.tryWithPrecision_ok hbase).1

/-- The kernel fits the folded image if it fits the padded one. -/
theorem kernelFits_fold (hlt : padding.1 < r.kernels.1 ∧ padding.2 < r.kernels.2)
    (h : KernelFits (r.explicitPad padding).shape r.kernels) :
    KernelFits (r.hardwarePad padding).shape r.kernels where
  height_pos := h.height_pos
  height_le := h.height_le
  width_pos := h.width_pos
  width_le := h.width_le
  padTop_lt := hlt.1
  padLeft_lt := hlt.2
  height_fits := h.height_fits
  width_fits := h.width_fits

/-- The folded request passes the checks that do not look at the image. -/
theorem tryWeightBytes_fold {kernel : KernelProgramming} {bytes : Nat}
    (hk : KernelFits (r.hardwarePad padding).shape r.kernels)
    (hkernel : (r.explicitPad padding).shape.tryKernelProgramming r.kernels = .ok kernel)
    (hbytes : (r.explicitPad padding).shape.tryWeightBytes r.kernels = .ok bytes) :
    (r.hardwarePad padding).shape.tryWeightBytes r.kernels = .ok bytes := by
  unfold Shape.tryWeightBytes at hbytes ⊢
  rw [hkernel] at hbytes
  rw [hk.tryKernelProgramming]
  obtain ⟨-, -, rfl⟩ := tryKernelProgramming_ok.mp hkernel
  exact hbytes

/-- No captured column partition has explicit padding. -/
theorem captured_fold : capturedColumnPartition (r.hardwarePad padding).shape r.kernels = none :=
  if_neg fun h => by simp [shape, hardwarePad] at h

/-- **The folded request is planned where its image fits.** -/
theorem FoldFits.tryNew (h : r.FoldFits policy padding)
    (hlt : padding.1 < r.kernels.1 ∧ padding.2 < r.kernels.2)
    (hmade : (r.hardwarePad padding).tryShape policy = .ok (r.hardwarePad padding).shape)
    {planned : ConvPlan}
    (hplanned : ConvPlan.tryNew policy (r.explicitPad padding).shape r.kernels = .ok planned) :
    ∃ plan, ConvPlan.tryNew policy (r.hardwarePad padding).shape r.kernels = .ok plan := by
  obtain ⟨kernel, u, bytes, banks, hkernel, hextents, hbytes, hpartition, -⟩ := tryNew_ok.mp hplanned
  have hk := kernelFits_fold hlt (kernelFits_of_checks hkernel hextents).1
  have hbuilt : (r.hardwarePad padding).shape.Built policy :=
    built (r := r.hardwarePad padding) hmade h.words.1 h.words.2.1 h.words.2.2
  have hs := hbuilt.wellFormed
  have hresized : ∃ width height pad, (r.hardwarePad padding).shape =
      { (r.explicitPad padding).shape with width := width, height := height, padding := pad } :=
    ⟨r.width, r.height, some padding, rfl⟩
  obtain ⟨granted, hgranted, hrange⟩ := cbufPartition_resized hresized hs.elementBytes_pos h.extents.1
    h.row ⟨_, hk.tryKernelProgramming⟩ hpartition
  have hplans : ∃ plan, ConvPlan.newWithCbufPartition (r.hardwarePad padding).shape r.kernels granted.1
      granted.2 = .ok plan := by
    cases hlayout : (r.hardwarePad padding).shape.layout with
    | dense =>
      obtain ⟨rows, hrows⟩ := rowTiles_of_alignedRowsFit hk hs.stride_pos hlayout
        (h.dense hlayout granted hgranted)
      obtain ⟨c, hgrid⟩ := planGrid_dense hlayout hs.width_pos hs.elementBytes_pos h.row hrange hrows
      unfold ConvPlan.newWithCbufPartition
      simp only [hgrid]
      exact ⟨_, rfl⟩
    | surfaces =>
      exact newWithCbufPartition_surfaces hs hk hlayout hs.elementBytes_pos h.row hrange captured_fold
        fun c hc => (h.surfaces hlayout granted hgranted).columnFits hs hk h.row hrange hc
  obtain ⟨plan, hplan⟩ := hplans
  exact ⟨plan, tryNew_ok.mpr ⟨_, (), bytes, granted, hk.tryKernelProgramming, hk.checkExtentsAgainst,
    tryWeightBytes_fold hk hkernel hbytes, hgranted, hplan⟩⟩

end Fold

end ConvRequest

/-- On a surface layout the fold keeps the plan of every convolution the compiler admits, while the
atoms and the row bytes of the image stay inside `u32`. -/
theorem admitted_surfaces_fold_keeps_plan (policy : PlanningPolicy) (r : ConvRequest)
    (padding : Padding) (hpadding : padding.1 ≤ 15 ∧ padding.2 ≤ 15)
    (hlt : padding.1 < r.kernels.1 ∧ padding.2 < r.kernels.2)
    (haccepted : admitConv r.admission = .ok ()) (hpos : 0 < r.width ∧ 0 < r.height)
    (hsurf : (r.hardwarePad padding).shape.layout = .surfaces)
    (hatoms : r.width * r.height * (r.hardwarePad padding).shape.cbufAtoms < 2 ^ 32)
    (hrow : (r.hardwarePad padding).shape.rowBytes r.width < 2 ^ 32) :
    r.FoldKeepsPlan policy padding := by
  rintro planned hplanned
  unfold ConvRequest.tryPlan at hplanned ⊢
  simp only [bind_ok] at hplanned ⊢
  obtain ⟨s, hs, hnew⟩ := hplanned
  obtain ⟨rfl, hextents⟩ := ConvRequest.tryShape_fold hpadding hs
  obtain ⟨⟨base, hbase⟩, -, hlinear, -⟩ := (ConvRequest.tryShape_padded rfl).mp (hextents.mp hpos)
  obtain ⟨kernel, u, -, -, hkernel, hfits, -⟩ := tryNew_ok.mp hnew
  have hk := ConvRequest.kernelFits_fold hlt (kernelFits_of_checks hkernel hfits).1
  have hsurface := (Shape.tryWithPrecision_ok hbase).2.2.2.2.2.2.2.1
  unfold Shape.tryWithPrecision at hbase
  simp only [bind_ok, refuseUnless_ok, exists_const] at hbase
  obtain ⟨hshape, hplans⟩ := ConvRequest.plans policy (r := r.hardwarePad padding)
    { extents := hpos, surface := hsurface, zeroPoints := hbase.2.2.2.2.2.2.1
      linear := fun hacc => hlinear.resolve_left (by simp [hacc])
      padding_lt := hlt, kernel_le := ⟨hk.height_fits, hk.width_fits⟩ } haccepted
  obtain ⟨plan, hplan⟩ := hplans.surfaces hsurf hatoms hrow
  refine ⟨plan, ⟨_, hshape, hplan⟩, ?_⟩
  rw [(planned_of_tryNew hplan).shape_eq, (planned_of_tryNew hnew).shape_eq]
  exact ⟨rfl, rfl⟩

end IreeRocket
