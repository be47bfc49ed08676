import IreeRocket.Core.Arithmetic
import Mathlib.Tactic.IntervalCases

/-!
# Where the planner's arithmetic can leave `u32`

On a shape the constructors accept under the default policy, every operation of `Core.Arithmetic` stays
in range but two products: the one of the data-bank demand and the one of a row of the full width
(`DemandInRange`, `RowInRange`). `planning_in_range` says on which inputs planning evaluates them.
-/

namespace IreeRocket.Conv

/-! ### One axis of the output -/

section Axis

variable {n pad k stride outFirst count : Nat}

/-- A range of the output whose last tap is inside the padded axis. -/
structure AxisRange (n pad k stride outFirst count : Nat) : Prop where
  extent : 0 < n ∧ n < 2 ^ 28
  kernel : pad < k ∧ k ≤ 11
  stride_lt : stride < 2 ^ 32
  count_pos : 0 < count
  last : (outFirst + count - 1) * stride + k ≤ n + 2 * pad

theorem AxisRange.first_le (h : AxisRange n pad k stride outFirst count) :
    outFirst * stride ≤ (outFirst + count - 1) * stride := by
  have := h.count_pos
  exact Nat.mul_le_mul_right _ (by omega)

/-- `count` strides reach at most one past the last first tap. -/
theorem AxisRange.strides_lt (h : AxisRange n pad k stride outFirst count) :
    count * stride < 2 ^ 32 := by
  have hpos := h.count_pos
  have hkernel := h.kernel
  have hextent := h.extent
  have hlast := h.last
  by_cases hone : count = 1
  · rw [hone, Nat.one_mul]
    exact h.stride_lt
  · have hle : count * stride ≤ 2 * ((outFirst + count - 1) * stride) := by
      rw [← Nat.mul_assoc]
      exact Nat.mul_le_mul_right _ (by omega)
    omega

/-- The first input position is not past the last one. -/
theorem AxisRange.first_le_last (h : AxisRange n pad k stride outFirst count) :
    outFirst * stride - pad ≤
      min ((outFirst + count - 1) * stride + k - 1 - pad) (n - 1) := by
  have hfirst := h.first_le
  have hkernel := h.kernel
  have hextent := h.extent
  have hlast := h.last
  omega

end Axis

section Planning

variable {s : Shape} {kernels : Kernels}

/-- What the constructors and the checks at the head of planning leave. -/
structure Plannable (s : Shape) (kernels : Kernels) : Prop where
  wellFormed : s.WellFormed .default
  fits : KernelFits s kernels

theorem Shape.WellFormed.in_le (h : s.WellFormed .default) : s.inChannels ≤ 4096 := by
  simpa [PlanningPolicy.default] using h.in_backed

theorem Shape.WellFormed.out_le (h : s.WellFormed .default) : s.outChannels ≤ 4096 := by
  simpa [PlanningPolicy.default] using h.out_backed

theorem Plannable.rows (h : Plannable s kernels) {outFirst outRows : Nat} (hpos : 0 < outRows)
    (hle : outFirst + outRows ≤ s.outputHeight kernels) :
    AxisRange s.height (s.kernelProgramming kernels).padTop kernels.1 s.stride outFirst outRows where
  extent := ⟨h.wellFormed.height_pos, h.wellFormed.height_lt⟩
  kernel := ⟨h.fits.padTop_lt, h.fits.height_le⟩
  stride_lt := h.wellFormed.stride_lt
  count_pos := hpos
  last := by
    have hlast := s.outFirst_mul_stride_le kernels
      (show outFirst + outRows - 1 < s.outputHeight kernels by omega)
    have hfits := h.fits.height_fits
    omega

theorem Plannable.columns (h : Plannable s kernels) {outFirst outCols : Nat} (hpos : 0 < outCols)
    (hle : outFirst + outCols ≤ s.outputWidth kernels) :
    AxisRange s.width (s.kernelProgramming kernels).padLeft kernels.2 s.stride outFirst outCols where
  extent := ⟨h.wellFormed.width_pos, h.wellFormed.width_lt⟩
  kernel := ⟨h.fits.padLeft_lt, h.fits.width_le⟩
  stride_lt := h.wellFormed.stride_lt
  count_pos := hpos
  last := by
    have hlast := s.outFirst_mul_stride_le' kernels
      (show outFirst + outCols - 1 < s.outputWidth kernels by omega)
    have hfits := h.fits.width_fits
    omega

theorem Plannable.outputHeight_lt (h : Plannable s kernels) : s.outputHeight kernels < 2 ^ 29 := by
  have hdiv := Nat.div_le_self
    (s.height + 2 * (s.kernelProgramming kernels).padTop - kernels.1) s.stride
  have hheight := h.wellFormed.height_lt
  have hpad := h.fits.padTop_lt
  have hle := h.fits.height_le
  unfold Shape.outputHeight
  simp only [kernelProgramming_height]
  omega

theorem Plannable.outputWidth_lt (h : Plannable s kernels) : s.outputWidth kernels < 2 ^ 29 := by
  have hdiv := Nat.div_le_self
    (s.width + 2 * (s.kernelProgramming kernels).padLeft - kernels.2) s.stride
  have hwidth := h.wellFormed.width_lt
  have hpad := h.fits.padLeft_lt
  have hle := h.fits.width_le
  unfold Shape.outputWidth
  simp only [kernelProgramming_width]
  omega

/-! ### Channels and coefficients -/

theorem Shape.WellFormed.featureAtoms_le (h : s.WellFormed .default) : s.featureAtoms ≤ 1024 := by
  have hle := h.in_le
  have hpos := h.in_pos
  unfold Shape.featureAtoms
  rw [Nat.ceilDiv_eq_add_pred_div]
  rcases s.precision.channelsPerAtom_cases with hc | hc | hc | hc <;> rw [hc] <;> omega

theorem Shape.WellFormed.featureAtoms_mul_le (h : s.WellFormed .default) :
    s.featureAtoms * s.precision.channelsPerAtom ≤ 4128 := by
  have hle := h.in_le
  have hpos := h.in_pos
  unfold Shape.featureAtoms
  rw [Nat.ceilDiv_eq_add_pred_div]
  rcases s.precision.channelsPerAtom_cases with hc | hc | hc | hc <;> rw [hc] <;> omega

theorem Shape.WellFormed.quadAtoms_mul_le (h : s.WellFormed .default) :
    quadAtoms s.featureAtoms * s.precision.channelsPerAtom ≤ 4160 := by
  have hmul := h.featureAtoms_mul_le
  have hquad := Nat.mul_le_mul_right s.precision.channelsPerAtom (quadAtoms_le s.featureAtoms)
  rw [Nat.succ_mul] at hquad
  have hatom : s.precision.channelsPerAtom ≤ 32 := by
    rcases s.precision.channelsPerAtom_cases with hc | hc | hc | hc <;> omega
  omega

theorem Shape.WellFormed.weightChannels_le (h : s.WellFormed .default) : s.weightChannels ≤ 4160 := by
  have hplain := h.featureAtoms_mul_le
  have hquad := h.quadAtoms_mul_le
  unfold Shape.weightChannels Shape.paddedChannels
  split_ifs
  · exact (Nat.mod_le _ _).trans hquad
  · exact (Nat.mod_le _ _).trans (hplain.trans (by decide))

theorem Shape.WellFormed.programmedKernels_le (h : s.WellFormed .default) :
    s.programmedKernels ≤ 4097 := by
  have hout := h.out_le
  have hnext := nextMultipleOf_lt s.outChannels (b := 2) (by decide)
  unfold Shape.programmedKernels
  split_ifs
  · decide
  · omega
  · exact (Nat.mod_le _ _).trans (by omega)

theorem quadAtomsOps_inRange {atoms : Nat} (h : atoms ≤ 1024) : AllInRange (quadAtomsOps atoms) := by
  unfold quadAtomsOps
  split_ifs
  · simp only [allInRange_cons, allInRange_nil, Op.InRange, and_true]
    omega
  · simp

theorem Shape.WellFormed.quadAtomsOps (h : s.WellFormed .default) :
    AllInRange (quadAtomsOps s.featureAtoms) := quadAtomsOps_inRange h.featureAtoms_le

theorem weightChannelsOps_inRange (h : s.WellFormed .default) : AllInRange s.weightChannelsOps := by
  have hplain := h.featureAtoms_mul_le
  have hquad := h.quadAtoms_mul_le
  unfold Shape.weightChannelsOps
  split_ifs
  · simp only [allInRange_append, allInRange_cons, allInRange_nil, Op.InRange, and_true]
    exact ⟨h.quadAtomsOps, by omega⟩
  · simp only [allInRange_cons, allInRange_nil, Op.InRange, and_true]
    omega

theorem programmedKernelsOps_inRange (h : s.WellFormed .default) :
    AllInRange s.programmedKernelsOps := by
  have hout := h.out_le
  have hnext := nextMultipleOf_lt s.outChannels (b := 2) (by decide)
  unfold Shape.programmedKernelsOps
  split_ifs
  · simp
  · simp
  · simp only [allInRange_cons, allInRange_nil, Op.InRange, and_true]
    omega

theorem tryWeightBytesOps_inRange (h : s.WellFormed .default) : AllInRange s.tryWeightBytesOps := by
  unfold Shape.tryWeightBytesOps
  split_ifs
  · exact h.quadAtomsOps
  · exact allInRange_append.mpr ⟨weightChannelsOps_inRange h, programmedKernelsOps_inRange h⟩

theorem checkExtentsOps_inRange (h : s.WellFormed .default) {kernel : KernelProgramming}
    (htop : kernel.padTop ≤ 11) (hleft : kernel.padLeft ≤ 11) :
    AllInRange (s.checkExtentsOps kernel) := by
  have hwidth := h.width_lt
  have hheight := h.height_lt
  unfold Shape.checkExtentsOps
  split_ifs <;> simp only [allInRange_append, allInRange_cons, allInRange_nil, Op.InRange, and_true] <;>
    omega

/-- The coefficients of one kernel position. -/
def Shape.tapElements (s : Shape) : Nat :=
  if s.depthwise then s.cbufAtoms * s.precision.channelsPerAtom
  else s.weightChannels * s.programmedKernels

theorem Shape.WellFormed.tapElements_le (h : s.WellFormed .default) :
    s.tapElements ≤ 4160 * 4097 := by
  unfold Shape.tapElements
  split_ifs
  · exact h.quadAtoms_mul_le.trans (by decide)
  · exact Nat.mul_le_mul h.weightChannels_le h.programmedKernels_le

theorem elementBits_le (p : Precision) : p.elementBits ≤ 32 := by
  rcases p.elementBits_cases with h | h | h | h <;> omega

/-- What `try_weight_bytes` has checked. -/
theorem tapBytes_lt (h : Plannable s kernels) {bytes : Nat} (hbytes : s.tryWeightBytes kernels = .ok bytes) :
    s.tapElements * s.precision.elementBits < 2 ^ 32 ∧
      kernels.1 * kernels.2 * (s.tapElements * s.precision.elementBits / 8) < 2 ^ 32 := by
  have hbits : s.tapElements * s.precision.elementBits ≤ 4160 * 4097 * 32 :=
    Nat.mul_le_mul h.wellFormed.tapElements_le (elementBits_le _)
  have hkh := h.fits.height_le
  have hkw := h.fits.width_le
  refine ⟨by omega, ?_⟩
  have hrow : s.tapElements * s.precision.elementBits / 8 * kernels.1 ≤ 4160 * 4097 * 4 * 11 :=
    Nat.mul_le_mul (by omega) hkh
  have hall : s.tapElements * s.precision.elementBits / 8 * kernels.1 * kernels.2 ≤
      4160 * 4097 * 4 * 11 * 11 := Nat.mul_le_mul hrow hkw
  unfold Shape.tryWeightBytes at hbytes
  simp only [bind_ok, refuseUnless_ok, pure_ok, exists_const] at hbytes
  obtain ⟨kernel, hkernel, hlt, -⟩ := hbytes
  obtain ⟨-, -, rfl⟩ := tryKernelProgramming_ok.mp hkernel
  change wrap64 (wrap64 (wrap64 (s.tapElements * s.precision.elementBits) / 8 * kernels.1) *
    kernels.2) < 2 ^ 32 at hlt
  rw [wrap64_of_lt (n := s.tapElements * s.precision.elementBits) (by omega),
    wrap64_of_lt (n := _ / 8 * _) (by omega), wrap64_of_lt (by omega)] at hlt
  rwa [Nat.mul_comm, ← Nat.mul_assoc]

theorem weightBytesOps_inRange (h : Plannable s kernels) {bytes : Nat}
    (hbytes : s.tryWeightBytes kernels = .ok bytes) : AllInRange (s.weightBytesOps kernels) := by
  obtain ⟨hbits, htotal⟩ := tapBytes_lt h hbytes
  have helements := h.wellFormed.tapElements_le
  have hkernel : kernels.1 * kernels.2 ≤ 11 * 11 := Nat.mul_le_mul h.fits.height_le h.fits.width_le
  have hchannels := weightChannelsOps_inRange h.wellFormed
  have hprogrammed := programmedKernelsOps_inRange h.wellFormed
  have hquad := h.wellFormed.quadAtomsOps
  unfold Shape.tapElements at hbits htotal helements
  unfold Shape.weightBytesOps Shape.bytesForOps
  split_ifs at * with hdepthwise
  · rw [wrap32_of_lt (by omega)]
    simp only [Precision.bytesFor, wrap32_of_lt hbits, allInRange_append, allInRange_cons, allInRange_nil,
      Op.InRange, and_true, kernelProgramming_height, kernelProgramming_width]
    exact ⟨⟨⟨⟨by omega, hquad⟩, by omega⟩, hbits⟩, htotal⟩
  · rw [wrap32_of_lt (by omega)]
    simp only [Precision.bytesFor, wrap32_of_lt hbits, allInRange_append, allInRange_cons, allInRange_nil,
      Op.InRange, and_true, kernelProgramming_height, kernelProgramming_width]
    exact ⟨⟨⟨⟨⟨by omega, hchannels⟩, hprogrammed⟩, by omega⟩, hbits⟩, htotal⟩

/-! ### Tiles -/

theorem tileInFirstOps_inRange (h : Plannable s kernels) {outFirst : Nat}
    (hlt : outFirst < s.outputHeight kernels) : AllInRange (s.tileInFirstOps outFirst) := by
  have hrange := h.rows Nat.one_pos (show outFirst + 1 ≤ s.outputHeight kernels from hlt)
  have hlast := hrange.last
  have hextent := hrange.extent
  have hkernel := hrange.kernel
  rw [Nat.add_sub_cancel] at hlast
  simp only [Shape.tileInFirstOps, allInRange_cons, allInRange_nil, Op.InRange, and_true]
  omega

theorem outputHeightOps_inRange (h : Plannable s kernels) : AllInRange (s.outputHeightOps kernels) := by
  have hheight := h.wellFormed.height_lt
  have hpad := h.fits.padTop_lt
  have hle := h.fits.height_le
  have hfits := h.fits.height_fits
  have hout := h.outputHeight_lt
  unfold Shape.outputHeight at hout
  simp only [Shape.outputHeightOps, allInRange_cons, allInRange_nil, Op.InRange, and_true,
    kernelProgramming_height] at hout ⊢
  omega

theorem outputWidthOps_inRange (h : Plannable s kernels) : AllInRange (s.outputWidthOps kernels) := by
  have hwidth := h.wellFormed.width_lt
  have hpad := h.fits.padLeft_lt
  have hle := h.fits.width_le
  have hfits := h.fits.width_fits
  have hout := h.outputWidth_lt
  unfold Shape.outputWidth at hout
  simp only [Shape.outputWidthOps, allInRange_cons, allInRange_nil, Op.InRange, and_true,
    kernelProgramming_width] at hout ⊢
  omega

theorem fromBoundsOps_inRange (h : Plannable s kernels) {outFirst outRows : Nat} (hpos : 0 < outRows)
    (hle : outFirst + outRows ≤ s.outputHeight kernels) :
    AllInRange (Tile.fromBoundsOps s kernels outFirst outRows) := by
  have hrange := h.rows hpos hle
  have hfirst := hrange.first_le
  have hstrides := hrange.strides_lt
  have horder := hrange.first_le_last
  have hlast := hrange.last
  have hextent := hrange.extent
  have hkernel := hrange.kernel
  have hout := h.outputHeight_lt
  simp only [Tile.fromBoundsOps, Shape.tileInFirstOps, Shape.tileInFirst, allInRange_append,
    allInRange_cons, allInRange_nil, Op.InRange, and_true, kernelProgramming_height] at horder ⊢
  omega

theorem capacityRowsOps_inRange (h : Plannable s kernels) {outFirst outRows : Nat} (hpos : 0 < outRows)
    (hle : outFirst + outRows ≤ s.outputHeight kernels) :
    AllInRange (Tile.capacityRowsOps s kernels outFirst outRows) := by
  have hrange := h.rows hpos hle
  have hbounds := fromBoundsOps_inRange h hpos hle
  have hfirst := hrange.first_le
  have hstrides := hrange.strides_lt
  have hlast := hrange.last
  have hextent := hrange.extent
  have hkernel := hrange.kernel
  have hout := h.outputHeight_lt
  simp only [Tile.capacityRowsOps, Shape.tileInFirstOps, Shape.tileInFirst, allInRange_append,
    allInRange_cons, allInRange_nil, Op.InRange, and_true, kernelProgramming_height]
  exact ⟨⟨hbounds, by omega⟩, by omega⟩

theorem splitFromOps_inRange (h : Plannable s kernels) {tiles : Nat} (hpos : 0 < tiles)
    (hle : tiles ≤ s.outputHeight kernels) (rest : Nat) : ∀ index outFirst : Nat, index + rest = tiles →
    outFirst = index * (s.outputHeight kernels / tiles) + min index (s.outputHeight kernels % tiles) →
    AllInRange (Tile.splitFromOps s kernels tiles index outFirst rest) := by
  have hout := h.outputHeight_lt
  induction rest with
  | zero => simp [Tile.splitFromOps]
  | succ rest ih =>
    intro index outFirst hindex hfirst
    have hrows := Tile.splitRows_pos index hpos hle
    have hnext : outFirst + Tile.splitRows (s.outputHeight kernels) tiles index =
        (index + 1) * (s.outputHeight kernels / tiles) +
          min (index + 1) (s.outputHeight kernels % tiles) := by
      rw [hfirst]
      exact Tile.splitRows_sum _ _ _
    have hend : outFirst + Tile.splitRows (s.outputHeight kernels) tiles index ≤
        s.outputHeight kernels := by
      have hmul := Nat.mul_le_mul_right (s.outputHeight kernels / tiles)
        (show index + 1 ≤ tiles by omega)
      have hdiv := Nat.div_add_mod (s.outputHeight kernels) tiles
      omega
    have hone : Tile.splitRows (s.outputHeight kernels) tiles index =
        s.outputHeight kernels / tiles +
          if index < s.outputHeight kernels % tiles then 1 else 0 := rfl
    simp only [Tile.splitFromOps, allInRange_append, allInRange_cons, allInRange_nil, Op.InRange,
      and_true]
    exact ⟨⟨⟨by omega, fromBoundsOps_inRange h hrows hend⟩, by omega⟩,
      ih (index + 1) _ (by omega) hnext⟩

theorem splitOps_inRange (h : Plannable s kernels) {tiles : Nat} (hpos : 0 < tiles)
    (hle : tiles ≤ s.outputHeight kernels) : AllInRange (Tile.splitOps s kernels tiles) :=
  allInRange_append.mpr ⟨outputHeightOps_inRange h,
    splitFromOps_inRange h hpos hle tiles 0 0 (by omega) (by simp)⟩

theorem findDownOps_inRange {ops : Nat → List Op} {fits : Nat → Bool} {n : Nat}
    (h : ∀ k, 0 < k → k ≤ n → AllInRange (ops k)) : AllInRange (Tile.findDownOps ops fits n) := by
  induction n with
  | zero => simp [Tile.findDownOps]
  | succ n ih =>
    rw [Tile.findDownOps, allInRange_append]
    refine ⟨h _ (by omega) le_rfl, ?_⟩
    split_ifs
    · simp
    · exact ih fun k hk hle => h k hk (by omega)

theorem greedyFromOps_inRange (h : Plannable s kernels) {maxRows : Nat} (fuel : Nat) :
    ∀ outFirst : Nat, AllInRange (Tile.greedyFromOps s kernels maxRows fuel outFirst) := by
  have hout := h.outputHeight_lt
  induction fuel with
  | zero => simp [Tile.greedyFromOps]
  | succ fuel ih =>
    intro outFirst
    rw [Tile.greedyFromOps]
    split_ifs with hlt
    · simp only [allInRange_append, allInRange_cons, allInRange_nil, Op.InRange, and_true]
      refine ⟨⟨by omega, ?_⟩, ?_⟩
      · exact findDownOps_inRange fun k hk hle => capacityRowsOps_inRange h hk (by omega)
      · split
        · simp
        · rename_i outRows hfind
          obtain ⟨-, -, hle⟩ := Tile.findDown_some hfind
          simp only [allInRange_append, allInRange_cons, allInRange_nil, Op.InRange, and_true]
          exact ⟨by omega, ih _⟩
    · simp

theorem splitGreedyOps_inRange (h : Plannable s kernels) (maxRows : Nat) :
    AllInRange (Tile.splitGreedyToCapacityOps s kernels maxRows) := by
  simp only [Tile.splitGreedyToCapacityOps, allInRange_append]
  refine ⟨⟨outputHeightOps_inRange h,
    fromBoundsOps_inRange h (s.outputHeight_pos kernels) (by omega)⟩, ?_⟩
  split_ifs
  · simp
  · exact greedyFromOps_inRange h _ 0

/-! ### Realigned boundaries -/

/-- The offset of an input row the tiles can begin at. -/
theorem candidateOps_inRange (h : Plannable s kernels) {candidate : Nat}
    (hlt : candidate < s.outputHeight kernels) : AllInRange (candidateOps s kernels candidate) := by
  refine allInRange_append.mpr ⟨tileInFirstOps_inRange h hlt, ?_⟩
  have hrange := h.rows Nat.one_pos (show candidate + 1 ≤ s.outputHeight kernels from hlt)
  have hlast := hrange.last
  have hkernel := hrange.kernel
  have hextent := hrange.extent
  have hsurface := h.wellFormed.surface
  have hwidth := h.wellFormed.width_lt
  rw [Nat.add_sub_cancel] at hlast
  unfold Shape.denseFeatureOffsetOps
  cases hlayout : s.layout with
  | surfaces => simp
  | dense =>
    have hin : s.inChannels ≤ 4 := by
      by_contra hmore
      simp [Shape.layout, maxDenseChannels, hmore] at hlayout
    have hrow : s.width * s.inChannels ≤ s.width * 4 := Nat.mul_le_mul_left _ hin
    have hbytes : s.width * s.inChannels * s.precision.elementBytes ≤ s.width * 4 * 4 :=
      Nat.mul_le_mul hrow s.precision.elementBytes_le
    have hfirst : s.tileInFirst kernels candidate ≤ s.height - 1 := by
      unfold Shape.tileInFirst
      omega
    have hoffset : s.tileInFirst kernels candidate * (s.width * s.inChannels * s.precision.elementBytes) ≤
        s.height * (s.width * 4 * 4) := Nat.mul_le_mul (by omega) hbytes
    have htotal : s.height * (s.width * 4 * 4) = s.width * s.height * 16 := by
      rw [Nat.mul_assoc, Nat.mul_left_comm, ← Nat.mul_assoc]
    simp only [allInRange_cons, allInRange_nil, Op.InRange, and_true, Shape.inputRowStride, hlayout]
    omega

theorem searchOps_inRange (h : Plannable s kernels) {candidates : List Nat}
    (hlt : ∀ c ∈ candidates, c < s.outputHeight kernels) : AllInRange (searchOps s kernels candidates) := by
  induction candidates with
  | nil => simp [searchOps]
  | cons c rest ih =>
    rw [searchOps, allInRange_append]
    refine ⟨candidateOps_inRange h (hlt c List.mem_cons_self), ?_⟩
    split_ifs
    · simp
    · exact ih fun c hc => hlt c (List.mem_cons_of_mem _ hc)

theorem placeBoundaryOps_inRange (h : Plannable s kernels) {previous current next : Nat}
    (hprev : previous < current) (hnext : current < next) (hend : next ≤ s.outputHeight kernels) :
    AllInRange (placeBoundaryOps s kernels (previous + 1) current (next - 1)) := by
  unfold placeBoundaryOps
  rw [allInRange_append]
  refine ⟨candidateOps_inRange h (by omega), ?_⟩
  split_ifs
  · simp
  · simp only [allInRange_append, allInRange_cons, allInRange_nil, Op.InRange, and_true]
    refine ⟨⟨by omega, by omega⟩, searchOps_inRange h fun c hc => ?_⟩
    have hin := of_decide_eq_true (List.mem_filter.mp hc).2
    omega

theorem realignBoundariesOps_inRange (h : Plannable s kernels) : ∀ {l : List Nat} {previous : Nat},
    List.IsChain (· < ·) (previous :: l) → (∀ b ∈ l, b ≤ s.outputHeight kernels) →
    AllInRange (realignBoundariesOps s kernels previous l)
  | [], _, _, _ => by simp [realignBoundariesOps]
  | [_], _, _, _ => by simp [realignBoundariesOps]
  | current :: next :: rest, previous, hchain, hend => by
    obtain ⟨hprev, htail⟩ := List.isChain_cons_cons.mp hchain
    obtain ⟨hnext, hrest⟩ := List.isChain_cons_cons.mp htail
    have hle := hend next (by simp)
    have hout := h.outputHeight_lt
    simp only [realignBoundariesOps, allInRange_append, allInRange_cons, allInRange_nil, Op.InRange,
      and_true]
    refine ⟨⟨by omega, by omega⟩, ?_⟩
    split_ifs
    · simp
    · rw [allInRange_append]
      refine ⟨placeBoundaryOps_inRange h hprev hnext hle, ?_⟩
      split
      · simp
      · rename_i placed hplaced
        obtain ⟨-, hlt, -⟩ := placeBoundary_some hprev hnext hplaced
        exact realignBoundariesOps_inRange h (List.isChain_cons_cons.mpr ⟨hlt, hrest⟩)
          fun b hb => hend b (List.mem_cons_of_mem _ hb)

theorem windowsOps_inRange (h : Plannable s kernels) : ∀ {l : List Nat} {first : Nat},
    List.IsChain (· < ·) (first :: l) → (∀ b ∈ l, b ≤ s.outputHeight kernels) →
    AllInRange (windowsOps s kernels first l)
  | [], _, _, _ => by simp [windowsOps]
  | boundary :: rest, first, hchain, hend => by
    obtain ⟨hlt, hrest⟩ := List.isChain_cons_cons.mp hchain
    have hle := hend boundary List.mem_cons_self
    simp only [windowsOps, allInRange_append, allInRange_cons, allInRange_nil, Op.InRange, and_true]
    exact ⟨⟨by omega, fromBoundsOps_inRange h (by omega) (by omega)⟩,
      windowsOps_inRange h hrest fun b hb => hend b (List.mem_cons_of_mem _ hb)⟩

/-- No boundary of an increasing list passes its last one. -/
theorem le_last_of_isChain {l : List Nat} {a last : Nat} (hchain : List.IsChain (· < ·) (a :: l))
    (hlast : l.getLastD a = last) : ∀ b ∈ l, b ≤ last := by
  induction l generalizing a with
  | nil => simp
  | cons b l ih =>
    obtain ⟨-, htail⟩ := List.isChain_cons_cons.mp hchain
    rw [List.getLastD_cons] at hlast
    intro c hc
    rcases List.mem_cons.mp hc with rfl | hc
    · exact hlast ▸ Segments.le_getLastD_of_isChain htail
    · exact ih htail hlast c hc

theorem realignOps_inRange (h : Plannable s kernels) {tiles : List Tile}
    (hcover : RowCover s kernels tiles) : AllInRange (realignDenseRowTilesOps s kernels tiles) := by
  have hne : tiles ≠ [] := hcover.covers.ne_nil (s.outputHeight_pos kernels)
  obtain ⟨starts, hstarts, hchain⟩ := hcover.covers.starts_chain hne
  unfold realignDenseRowTilesOps
  split_ifs
  · simp
  · rw [allInRange_append, hstarts]
    refine ⟨outputHeightOps_inRange h, ?_⟩
    rw [allInRange_append]
    refine ⟨realignBoundariesOps_inRange h hchain
      (le_last_of_isChain hchain (List.getLastD_concat ..)), ?_⟩
    split
    · simp
    · rename_i boundaries hplaced
      obtain ⟨hinc, hlast, -⟩ := realignBoundaries_some (by simp) hchain hplaced
      rw [List.getLastD_concat] at hlast
      exact windowsOps_inRange h hinc (le_last_of_isChain hinc hlast)

theorem firstUniformSplitOps_inRange (h : Plannable s kernels) {maxRows : Nat} (rest : Nat) :
    ∀ count, 0 < count → count + rest ≤ s.outputHeight kernels + 1 →
      AllInRange (firstUniformSplitOps s kernels maxRows count rest) := by
  induction rest with
  | zero => simp [firstUniformSplitOps]
  | succ rest ih =>
    intro count hpos hle
    have hnext := ih (count + 1) (by omega) (by omega)
    rw [firstUniformSplitOps, allInRange_append]
    refine ⟨splitOps_inRange h hpos (by omega), ?_⟩
    split
    · simp
    · rename_i rows hsplit
      split_ifs
      · rw [allInRange_append]
        refine ⟨realignOps_inRange h (Tile.split_cover hsplit), ?_⟩
        split
        · simp
        · exact hnext
      · exact hnext

theorem rowTilesOps_inRange (h : Plannable s kernels) (maxRows : Nat) :
    AllInRange (rowTilesOps s kernels maxRows) := by
  rw [rowTilesOps, allInRange_append]
  refine ⟨splitGreedyOps_inRange h maxRows, ?_⟩
  split
  · simp
  · rename_i greedy hgreedy
    rw [allInRange_append]
    refine ⟨realignOps_inRange h (Tile.splitGreedy_cover hgreedy).1, ?_⟩
    split
    · simp
    · exact allInRange_append.mpr ⟨outputHeightOps_inRange h,
        firstUniformSplitOps_inRange h _ 1 (by decide) (by omega)⟩

/-! ### Columns -/

theorem fromOutputRangeOps_inRange (h : Plannable s kernels) {outFirst outCols : Nat} (hpos : 0 < outCols)
    (hle : outFirst + outCols ≤ s.outputWidth kernels) :
    AllInRange (ColumnTile.fromOutputRangeOps s kernels outFirst outCols) := by
  have hrange := h.columns hpos hle
  have hfirst := hrange.first_le
  have hstrides := hrange.strides_lt
  have horder := hrange.first_le_last
  have hlast := hrange.last
  have hextent := hrange.extent
  have hkernel := hrange.kernel
  have hout := h.outputWidth_lt
  unfold ColumnTile.fromOutputRangeOps
  rw [allInRange_append, allInRange_append]
  refine ⟨⟨outputWidthOps_inRange h, ?_⟩, ?_⟩
  · simp only [allInRange_cons, allInRange_nil, Op.InRange, and_true, kernelProgramming_width]
    omega
  · split_ifs
    · simp
    · simpa [Op.InRange] using hstrides

theorem columnsFromOps_inRange (h : Plannable s kernels) (widths : List Nat) : ∀ outFirst : Nat,
    (∀ n ∈ widths, 0 < n) → outFirst + widths.sum ≤ s.outputWidth kernels →
      AllInRange (ColumnTile.splitFromOps s kernels outFirst widths) := by
  have hout := h.outputWidth_lt
  induction widths with
  | nil => simp [ColumnTile.splitFromOps]
  | cons n widths ih =>
    intro outFirst hpos hsum
    rw [List.sum_cons] at hsum
    simp only [ColumnTile.splitFromOps, allInRange_append, allInRange_cons, allInRange_nil, Op.InRange,
      and_true]
    exact ⟨⟨fromOutputRangeOps_inRange h (hpos n List.mem_cons_self) (by omega), by omega⟩,
      ih _ (fun m hm => hpos m (List.mem_cons_of_mem _ hm)) (by omega)⟩

theorem sumOps_inRange (widths : List Nat) : ∀ total : Nat, total + widths.sum < 2 ^ 32 →
    AllInRange (ColumnTile.sumOps total widths) := by
  induction widths with
  | nil => simp [ColumnTile.sumOps]
  | cons n widths ih =>
    intro total hsum
    rw [List.sum_cons] at hsum
    simp only [ColumnTile.sumOps, allInRange_cons, Op.InRange]
    exact ⟨by omega, ih _ (by omega)⟩

theorem columnsSplitOps_inRange (h : Plannable s kernels) {widths : List Nat}
    (hpos : ∀ n ∈ widths, 0 < n) (hsum : widths.sum = s.outputWidth kernels) :
    AllInRange (ColumnTile.splitOps s kernels widths) := by
  have hout := h.outputWidth_lt
  simp only [ColumnTile.splitOps, allInRange_append]
  exact ⟨⟨sumOps_inRange widths 0 (by omega), outputWidthOps_inRange h⟩,
    columnsFromOps_inRange h widths 0 hpos (by omega)⟩

/-! ### The two products that can leave the type -/

/-- The product of the data-bank demand is a `u32`. -/
def Shape.DemandInRange (s : Shape) : Prop :=
  match s.layout with
  | .dense => s.cbufInputWidth s.width * s.height * s.denseCbufPixelBytes < 2 ^ 32
  | .surfaces => s.width * s.height * s.cbufAtoms < 2 ^ 32

/-- The CBUF bytes of a row of the full width are a `u32`. -/
def Shape.RowInRange (s : Shape) : Prop := s.rowBytes s.width < 2 ^ 32

theorem Shape.WellFormed.cbufAtoms_le (h : s.WellFormed .default) : s.cbufAtoms ≤ 1025 := by
  have hatoms := h.featureAtoms_le
  have hquad := quadAtoms_le s.featureAtoms
  unfold Shape.cbufAtoms
  omega

/-- Dense elements are whole bytes: `int4` has at least an atom of channels. -/
theorem Shape.WellFormed.dense_elementBytes_pos (h : s.WellFormed .default) (hdense : s.layout = .dense) :
    0 < s.precision.elementBytes := by
  have hin : s.inChannels ≤ 4 := by
    by_contra hmore
    simp [Shape.layout, maxDenseChannels, hmore] at hdense
  have hpos := h.in_pos
  cases hp : s.precision with
  | int4 =>
    have := h.int4_atoms hp
    omega
  | _ => simp [Precision.elementBytes, Precision.elementBits]

theorem cbufInputWidth_lt (h : s.WellFormed .default) {inputWidth : Nat} (hle : inputWidth ≤ s.width) :
    s.cbufInputWidth inputWidth < 2 ^ 29 := by
  have hwidth := h.width_lt
  have hnext := nextMultipleOf_lt inputWidth s.precision.channelsPerAtom_pos
  have hatom : s.precision.channelsPerAtom ≤ 32 := by
    rcases s.precision.channelsPerAtom_cases with hc | hc | hc | hc <;> omega
  unfold Shape.cbufInputWidth
  cases s.layout <;> simp only <;> omega

theorem cbufInputWidthOps_inRange (h : s.WellFormed .default) {inputWidth : Nat}
    (hle : inputWidth ≤ s.width) : AllInRange (s.cbufInputWidthOps inputWidth) := by
  have hlt := cbufInputWidth_lt h hle
  unfold Shape.cbufInputWidth at hlt
  unfold Shape.cbufInputWidthOps
  cases hlayout : s.layout with
  | surfaces => simp
  | dense =>
    simp only [hlayout] at hlt
    simp only [allInRange_cons, allInRange_nil, Op.InRange, and_true]
    omega

theorem pixelOps_inRange (s : Shape) : AllInRange s.denseCbufPixelBytesOps := by
  have hle := s.denseCbufPixelBytes_le
  unfold Shape.denseCbufPixelBytes at hle
  simp only [Shape.denseCbufPixelBytesOps, allInRange_cons, allInRange_nil, Op.InRange, and_true]
  omega

/-- **The data-bank demand.** Its operations stay in range exactly when its product does. -/
theorem dataBankDemandOps_iff (h : s.WellFormed .default) :
    AllInRange s.dataBankDemandOps ↔ s.DemandInRange := by
  have hsurface := h.surface
  have hcharged := cbufInputWidthOps_inRange h (le_refl s.width)
  unfold Shape.dataBankDemandOps Shape.DemandInRange
  cases hlayout : s.layout with
  | surfaces =>
    simp only [allInRange_append, allInRange_cons, allInRange_nil, Op.InRange, and_true]
    exact ⟨fun hops => hops.2, fun hlt => ⟨⟨by omega, h.quadAtomsOps⟩, hlt⟩⟩
  | dense =>
    have hpixel := pixelOps_inRange s
    have hpos : 0 < s.denseCbufPixelBytes :=
      Nat.mul_pos s.storedChannels_pos (h.dense_elementBytes_pos hlayout)
    simp only [allInRange_append, allInRange_cons, allInRange_nil, Op.InRange, and_true]
    constructor
    · rintro ⟨⟨⟨-, himage⟩, -⟩, htotal⟩
      rwa [wrap32_of_lt himage] at htotal
    · intro htotal
      have himage := (Nat.le_mul_of_pos_right (s.cbufInputWidth s.width * s.height) hpos).trans_lt htotal
      refine ⟨⟨⟨hcharged, himage⟩, hpixel⟩, ?_⟩
      rwa [wrap32_of_lt himage]

/-- The row capacity's operations stay in range exactly when the row's bytes do. -/
theorem capacityOps_iff (h : s.WellFormed .default) {inputWidth dataBanks : Nat}
    (hwidth : inputWidth ≤ s.width) (hbanks : dataBanks ≤ 11) :
    AllInRange (s.capacityOps inputWidth dataBanks) ↔ s.rowBytes inputWidth < 2 ^ 32 := by
  have hcharged := cbufInputWidthOps_inRange h hwidth
  unfold Shape.capacityOps Shape.rowBytes cbufBankBytes
  cases hlayout : s.layout with
  | dense =>
    simp only [allInRange_append, allInRange_cons, allInRange_nil, Op.InRange, and_true]
    exact ⟨fun hops => hops.2.2, fun hlt => ⟨hcharged, ⟨by omega, pixelOps_inRange s⟩, hlt⟩⟩
  | surfaces =>
    have hatoms := le_ceilDiv_mul (inputWidth * s.cbufAtoms) (show 0 < cbufAtomsPerEntry by decide)
    simp only [allInRange_append, allInRange_cons, allInRange_nil, Op.InRange, and_true]
    constructor
    · rintro ⟨-, -, hrow, -, hentries, hbytes⟩
      rw [wrap32_of_lt hrow] at hentries hbytes
      rwa [wrap32_of_lt hentries] at hbytes
    · intro hlt
      unfold featureAtomBytes at hlt
      rw [wrap32_of_lt (n := inputWidth * s.cbufAtoms) (by omega),
        wrap32_of_lt (n := inputWidth * s.cbufAtoms ⌈/⌉ cbufAtomsPerEntry * cbufAtomsPerEntry) (by omega)]
      unfold featureAtomBytes
      exact ⟨hcharged, h.quadAtomsOps, by omega, by omega, by omega, hlt⟩

/-! ### Plans -/

/-- A column within the width bound: its row leaves the type only if it is a full row. -/
theorem rowBytes_lt_of_le_maxTileInputWidth (h : s.WellFormed .default) {inCols : Nat}
    (hwidth : inCols ≤ s.width) (hmax : inCols ≤ s.maxTileInputWidth)
    (hrow : s.width ≤ s.maxTileInputWidth → s.RowInRange) : s.rowBytes inCols < 2 ^ 32 := by
  by_cases hfull : s.width ≤ s.maxTileInputWidth
  · exact (s.rowBytes_mono hwidth).trans_lt (hrow hfull)
  · have hatoms := h.cbufAtoms_le
    unfold Shape.maxTileInputWidth at hmax hfull
    unfold Shape.rowBytes
    cases hlayout : s.layout with
    | dense => simp [hlayout] at hfull
    | surfaces =>
      simp only [hlayout] at hmax hfull ⊢
      split_ifs at hmax hfull with hextra
      · omega
      · -- the slabs past the first one hold all but four of the atoms
        have hceil := le_ceilDiv_mul s.cbufAtoms (show 0 < cbufAtomsPerEntry by decide)
        have hslots : inCols * (s.cbufAtoms ⌈/⌉ cbufAtomsPerEntry - 1) ≤ maxEntrySlabBase :=
          (Nat.mul_le_mul_right _ (hmax.trans (min_le_left _ _))).trans (Nat.div_mul_le_self _ _)
        have hrowAtoms : inCols * s.cbufAtoms ≤ inCols * (8 * (s.cbufAtoms ⌈/⌉ cbufAtomsPerEntry - 1)) := by
          unfold cbufAtomsPerEntry at hceil hextra ⊢
          exact Nat.mul_le_mul_left _ (by omega)
        have hentries := ceilDiv_mul_lt (inCols * s.cbufAtoms) (show 0 < cbufAtomsPerEntry by decide)
        rw [Nat.mul_left_comm] at hrowAtoms
        unfold maxEntrySlabBase at hslots
        unfold cbufAtomsPerEntry at hentries hrowAtoms hslots ⊢
        unfold featureAtomBytes
        omega

theorem maxTileInputWidthOps_inRange (h : s.WellFormed .default) : AllInRange s.maxTileInputWidthOps := by
  unfold Shape.maxTileInputWidthOps
  cases s.layout with
  | dense => simp
  | surfaces =>
    have hceil := ceilDiv_pos s.cbufAtoms_pos (show 0 < cbufAtomsPerEntry by decide)
    simp only [allInRange_append, allInRange_cons, allInRange_nil, Op.InRange, and_true]
    exact ⟨h.quadAtomsOps, hceil⟩

theorem maxFeatureGrainOps_inRange (h : Plannable s kernels) : AllInRange (s.maxFeatureGrainOps kernels) := by
  have hpad := h.fits.padTop_lt
  have hle := h.fits.height_le
  simp only [Shape.maxFeatureGrainOps, allInRange_cons, allInRange_nil, Op.InRange, and_true,
    kernelProgramming_height]
  omega

theorem planColumnsOps_inRange (h : Plannable s kernels) {dataBanks : Nat} (hbanks : dataBanks ≤ 11)
    (hrow : s.width ≤ s.maxTileInputWidth → s.RowInRange) (cols : List ColumnTile) :
    (∀ c ∈ cols, c.inCols ≤ s.width) → AllInRange (planColumnsOps s kernels dataBanks cols) := by
  induction cols with
  | nil => simp [planColumnsOps]
  | cons c cols ih =>
    intro hwidths
    have hwidth := hwidths c List.mem_cons_self
    rw [planColumnsOps, allInRange_append]
    refine ⟨maxTileInputWidthOps_inRange h.wellFormed, ?_⟩
    split_ifs with hwide
    · simp
    · rw [allInRange_append]
      refine ⟨(capacityOps_iff h.wellFormed hwidth hbanks).mpr
        (rowBytes_lt_of_le_maxTileInputWidth h.wellFormed hwidth (by omega) hrow), ?_⟩
      split
      · simp
      · simp only [allInRange_append]
        refine ⟨⟨maxFeatureGrainOps_inRange h, rowTilesOps_inRange h _⟩, ?_⟩
        split
        · exact ih fun c hc => hwidths c (List.mem_cons_of_mem _ hc)
        · simp

theorem planGridOps_inRange (h : Plannable s kernels) {dataBanks : Nat} (hbanks : dataBanks ≤ 11)
    (hrow : s.width ≤ s.maxTileInputWidth → s.RowInRange) {widths : List Nat}
    (hpos : ∀ n ∈ widths, 0 < n) (hsum : widths.sum = s.outputWidth kernels) :
    AllInRange (planGridOps s kernels widths dataBanks) := by
  rw [planGridOps, allInRange_append]
  refine ⟨columnsSplitOps_inRange h hpos hsum, ?_⟩
  split
  · simp
  · rename_i cols hcols
    refine planColumnsOps_inRange h hbanks hrow cols fun c hc => ?_
    exact (inCols_bounds h.wellFormed h.fits ((ColumnTile.split_cover hcols).2 c hc)).2

/-- The one column of the full width is asked for its row capacity. -/
theorem planGridOps_full (h : Plannable s kernels) {dataBanks : Nat} (hbanks : dataBanks ≤ 11)
    (hwide : s.width ≤ s.maxTileInputWidth)
    (hops : AllInRange (planGridOps s kernels [s.outputWidth kernels] dataBanks)) : s.RowInRange := by
  obtain ⟨c, hc⟩ := fromOutputRange_isOk s kernels (a := 0) (s.outputWidth_pos kernels) (by omega)
  obtain ⟨hfirst, hcols, -, -⟩ := ColumnTile.fromOutputRange_ok hc
  have hfull : c.inCols = s.width :=
    ColumnTile.inCols_of_full (by rw [hfirst, hcols]; exact hc) hfirst hcols
  have hsplit : ColumnTile.split s kernels [s.outputWidth kernels] = .ok [c] := by
    unfold ColumnTile.split ColumnTile.splitFrom ColumnTile.splitFrom
    simp only [bind_ok, assertThat_ok, pure_ok, exists_const]
    exact ⟨by simp, by simp, c, hc, [], rfl, rfl⟩
  have hnot : ¬ c.inCols > s.maxTileInputWidth := by omega
  rw [planGridOps, hsplit, allInRange_append] at hops
  have hcolumn := hops.2
  simp only [planColumnsOps, if_neg hnot, allInRange_append] at hcolumn
  have hcapacity := (capacityOps_iff h.wellFormed (by omega) hbanks).mp hcolumn.2.1
  rwa [hfull] at hcapacity

theorem balancedSearchOps_inRange (h : Plannable s kernels) {dataBanks : Nat} (hbanks : dataBanks ≤ 11)
    (hrow : s.width ≤ s.maxTileInputWidth → s.RowInRange) (rest : Nat) : ∀ count, 0 < count →
    count + rest ≤ s.outputWidth kernels + 1 →
    AllInRange (balancedSearchOps s kernels dataBanks count rest) := by
  have hout := h.outputWidth_lt
  induction rest with
  | zero => simp [balancedSearchOps]
  | succ rest ih =>
    intro count hpos hle
    simp only [balancedSearchOps, allInRange_append]
    refine ⟨⟨fun op hop => ?_, ?_⟩, ?_⟩
    · obtain ⟨index, -, rfl⟩ := List.mem_map.mp hop
      have hdiv := Nat.div_le_self (s.outputWidth kernels) count
      simp only [Op.InRange]
      split_ifs <;> omega
    · exact planGridOps_inRange h hbanks hrow (fun n hn => balancedColumnWidths_pos hpos (by omega) hn)
        (balancedColumnWidths_sum _ hpos)
    · split
      · exact ih (count + 1) (by omega) (by omega)
      · simp

/-- The captured shapes are small. -/
theorem capturedColumnPartition_spec {widths : List Nat}
    (h : capturedColumnPartition s kernels = some widths) : s.width = 256 ∧
      (∀ n ∈ widths, 0 < n) ∧ widths.sum = s.outputWidth kernels := by
  unfold capturedColumnPartition at h
  split_ifs at h with hshape h1 h2 h3
  all_goals
    obtain ⟨hwidth, -, hstride, -, -, hpadding⟩ := hshape
    obtain rfl := Option.some.inj h
    refine ⟨hwidth, by decide, ?_⟩
    simp [Shape.outputWidth, Shape.kernelProgramming, kernelProgramming, *]

theorem rowInRange_of_width_le (h : s.WellFormed .default) (hwidth : s.width ≤ 256) : s.RowInRange := by
  have hatoms := h.cbufAtoms_le
  have hrow : s.width * s.cbufAtoms ≤ 256 * 1025 := Nat.mul_le_mul hwidth hatoms
  unfold Shape.RowInRange Shape.rowBytes
  cases hlayout : s.layout with
  | dense =>
    have hnext := nextMultipleOf_lt s.width s.precision.channelsPerAtom_pos
    have hatom : s.precision.channelsPerAtom ≤ 32 := by
      rcases s.precision.channelsPerAtom_cases with hc | hc | hc | hc <;> omega
    have hcharged : s.cbufInputWidth s.width ≤ 288 := by
      simp only [Shape.cbufInputWidth, hlayout]
      omega
    exact (Nat.mul_le_mul hcharged s.denseCbufPixelBytes_le).trans_lt (by decide)
  | surfaces =>
    have hentries := ceilDiv_mul_lt (s.width * s.cbufAtoms) (show 0 < cbufAtomsPerEntry by decide)
    unfold cbufAtomsPerEntry at hentries ⊢
    unfold featureAtomBytes
    simp only
    omega

theorem featureGrainsOps_inRange (h : Plannable s kernels) {tile : Tile}
    (hrows : tile.inRows ≤ s.height) (hpad : tile.padTop ≤ 11) :
    AllInRange (featureGrainsOps kernels tile) := by
  have hheight := h.wellFormed.height_lt
  have hle := h.fits.height_le
  have hkernel : (kernelProgramming kernels none).height = kernels.1 := rfl
  simp only [featureGrainsOps, allInRange_cons, allInRange_nil, Op.InRange, and_true, hkernel]
  omega

theorem gridFitsOps_inRange (h : Plannable s kernels) {dataBanks : Nat} (hbanks : dataBanks ≤ 11)
    (hrow : s.RowInRange) (tiles : List Tile2D) :
    (∀ t ∈ tiles, t.columns.inCols ≤ s.width ∧ t.rows.inRows ≤ s.height ∧ t.rows.padTop ≤ 11) →
    AllInRange (gridFitsOps s kernels dataBanks tiles) := by
  induction tiles with
  | nil => simp [gridFitsOps]
  | cons t tiles ih =>
    intro htiles
    obtain ⟨hwidth, hrows, hpad⟩ := htiles t List.mem_cons_self
    rw [gridFitsOps, allInRange_append]
    refine ⟨maxTileInputWidthOps_inRange h.wellFormed, ?_⟩
    split
    · rw [allInRange_append]
      refine ⟨(capacityOps_iff h.wellFormed hwidth hbanks).mpr ((s.rowBytes_mono hwidth).trans_lt hrow), ?_⟩
      split
      · simp
      · split
        · rw [allInRange_append]
          refine ⟨featureGrainsOps_inRange h hrows hpad, ?_⟩
          split
          · exact ih fun t ht => htiles t (List.mem_cons_of_mem _ ht)
          · simp
        · simp
    · simp

theorem minTiles_bounds {inputWidth dataBanks tiles : Nat}
    (h : s.minTilesForWidthAndDataBanks kernels inputWidth dataBanks = .ok tiles) :
    0 < tiles ∧ tiles ≤ s.outputHeight kernels := by
  unfold Shape.minTilesForWidthAndDataBanks at h
  simp only [bind_ok, pure_ok] at h
  obtain ⟨capacity, -, rfl⟩ := h
  refine ⟨ceilDiv_pos (s.outputHeight_pos kernels) (by omega), ?_⟩
  refine (ceilDiv_le_iff_le_mul (show 0 < max _ 1 by omega)).mpr ?_
  exact Nat.le_mul_of_pos_left _ (by omega)

theorem gridFromOps_inRange (h : Plannable s kernels) {dataBanks : Nat} (hbanks : dataBanks ≤ 11)
    (hrow : s.RowInRange) (cols : List ColumnTile) : (∀ c ∈ cols, c.inCols ≤ s.width) →
    AllInRange (gridFromOps s kernels dataBanks cols) := by
  induction cols with
  | nil => simp [gridFromOps]
  | cons c cols ih =>
    intro hwidths
    have hwidth := hwidths c List.mem_cons_self
    have hle := h.fits.height_pos
    rw [gridFromOps, allInRange_append]
    constructor
    · simp only [Shape.minTilesOps, allInRange_append, allInRange_cons, allInRange_nil, Op.InRange,
        and_true, kernelProgramming_height]
      exact ⟨⟨⟨hle, (capacityOps_iff h.wellFormed hwidth hbanks).mpr
        ((s.rowBytes_mono hwidth).trans_lt hrow)⟩, maxFeatureGrainOps_inRange h⟩,
        outputHeightOps_inRange h⟩
    · split
      · simp
      · rename_i tiles htiles
        obtain ⟨hpos, hcount⟩ := minTiles_bounds htiles
        exact allInRange_append.mpr ⟨splitOps_inRange h hpos hcount,
          ih fun c hc => hwidths c (List.mem_cons_of_mem _ hc)⟩

/-- **Planning under a partition.** Past the partition only the full-width row can leave the type. -/
theorem newWithCbufPartitionOps_iff (h : Plannable s kernels) {dataBanks : Nat} (hbanks : dataBanks ≤ 11) :
    AllInRange (newWithCbufPartitionOps s kernels dataBanks) ↔
      (s.width ≤ s.maxTileInputWidth → s.RowInRange) := by
  constructor
  · intro hops hwide
    simp only [newWithCbufPartitionOps, allInRange_append] at hops
    exact planGridOps_full h hbanks hwide hops.1.2
  · intro hrow
    have hfull := s.outputWidth_pos kernels
    simp only [newWithCbufPartitionOps, allInRange_append]
    refine ⟨⟨outputWidthOps_inRange h, planGridOps_inRange h hbanks hrow (by simpa using hfull)
      (by simp)⟩, ?_⟩
    split
    · split
      · split
        · rename_i widths hcaptured
          obtain ⟨hwidth, hpos, hsum⟩ := capturedColumnPartition_spec hcaptured
          have hrow := rowInRange_of_width_le h.wellFormed (by omega : s.width ≤ 256)
          have hin : ∀ {cols : List ColumnTile}, ColumnTile.split s kernels widths = .ok cols →
              ∀ c ∈ cols, c.inCols ≤ s.width := fun hcols c hc =>
            (inCols_bounds h.wellFormed h.fits ((ColumnTile.split_cover hcols).2 c hc)).2
          simp only [allInRange_append]
          refine ⟨⟨columnsSplitOps_inRange h hpos hsum, ?_⟩, ?_⟩
          · split
            · simp
            · rename_i cols hcols
              exact gridFromOps_inRange h hbanks hrow cols (hin hcols)
          · split
            · simp
            · rename_i tiles htiles
              unfold Tile2D.grid at htiles
              simp only [bind_ok] at htiles
              obtain ⟨cols, hcols, hgrid⟩ := htiles
              obtain ⟨hstacked, hbounds⟩ := gridFrom_stacked cols hgrid
              refine gridFitsOps_inRange h hbanks hrow tiles fun t ht => ?_
              obtain ⟨r, c, hc, heq, -, -⟩ := hstacked.mem ht
              have hpad := h.fits.padTop_lt
              have hle := h.fits.height_le
              refine ⟨hin hcols _ (by rw [heq]; exact hc), ?_, ?_⟩
              · rw [hbounds t ht, Tile.fromBounds]
                exact (min_le_right _ _).trans (Nat.sub_le _ _)
              · rw [hbounds t ht, Tile.fromBounds]
                exact (Nat.sub_le _ _).trans (by omega)
        · exact allInRange_append.mpr ⟨outputWidthOps_inRange h,
            balancedSearchOps_inRange h hbanks hrow _ 2 (by decide) (by omega)⟩
      · simp
    · simp

/-! ### Partitions -/

theorem streamedOps_inRange (h : Plannable s kernels) {weightChannels elementBits : Nat}
    (hchannels : weightChannels ≤ 4160) (hbits : elementBits ≤ 32) (divisor : Nat) :
    AllInRange (streamedWeightBankPreferenceForGroupOps weightChannels kernels divisor elementBits) := by
  have hkernel : kernels.1 * kernels.2 ≤ 11 * 11 := Nat.mul_le_mul h.fits.height_le h.fits.width_le
  have htaps : kernels.1 * kernels.2 * weightChannels ≤ 11 * 11 * 4160 := Nat.mul_le_mul hkernel hchannels
  have hgroup : 64 * max (elementBits / 16) 1 ≤ 128 := by omega
  have hset : wrap32 (kernels.1 * kernels.2 * weightChannels) * (64 * max (elementBits / 16) 1) ≤
      11 * 11 * 4160 * 128 := Nat.mul_le_mul ((Nat.mod_le _ _).trans htaps) hgroup
  have hbanks : ∀ n, n ≤ 11 * 11 * 4160 * 128 → max ((n ⌈/⌉ cbufEntryBytes) ⌈/⌉ cbufEntriesPerBank) 1 ≤
      11 * 11 * 4160 * 128 + 1 := by
    intro n hn
    have hentry : cbufEntryBytes = 128 := rfl
    have hbank : cbufEntriesPerBank = 256 := rfl
    have hentries := ceilDiv_mul_lt n (show 0 < 128 by decide)
    have hperBank := ceilDiv_mul_lt (n ⌈/⌉ 128) (show 0 < 256 by decide)
    rw [hentry, hbank]
    omega
  have hlast := hbanks (wrap32 (wrap32 (kernels.1 * kernels.2 * weightChannels) *
      (64 * max (elementBits / 16) 1)) / divisor)
    ((Nat.div_le_self _ _).trans ((Nat.mod_le _ _).trans hset))
  unfold streamedWeightBankPreferenceForGroupOps
  rw [allInRange_append]
  constructor
  · simp only [allInRange_cons, allInRange_nil, Op.InRange, and_true]
    omega
  · split_ifs
    · simp
    · simp only [allInRange_cons, allInRange_nil, Op.InRange, and_true]
      omega
    · simp

theorem streamedPreferenceOps_inRange (h : Plannable s kernels) :
    AllInRange (streamedWeightBankPreferenceOps s.streamedContractionChannels kernels
      s.precision.elementBits) := by
  have hchannels : s.streamedContractionChannels ≤ 4160 := by
    have := h.wellFormed.weightChannels_le
    unfold Shape.streamedContractionChannels
    split_ifs <;> omega
  unfold streamedWeightBankPreferenceOps
  rw [allInRange_append]
  refine ⟨streamedOps_inRange h hchannels (elementBits_le _) 1, ?_⟩
  split_ifs
  · simp
  · exact streamedOps_inRange h hchannels (elementBits_le _) 2

theorem contractionOps_inRange (h : s.WellFormed .default) :
    AllInRange s.streamedContractionChannelsOps := by
  unfold Shape.streamedContractionChannelsOps
  split_ifs
  · simp
  · exact weightChannelsOps_inRange h

theorem weightBanksFloorOps_inRange (h : s.WellFormed .default) :
    AllInRange (weightBanksFloorOps s.weightChannels) := by
  have hle := h.weightChannels_le
  unfold weightBanksFloorOps
  split_ifs
  · simp
  · simp only [allInRange_cons, allInRange_nil, Op.InRange, and_true]
    omega

/-- What the demand-based partition needs to stay in range: the demand, and a full-width row when it
compares row capacities. -/
def Shape.DemandBasedInRange (s : Shape) (kernels : Kernels) : Prop :=
  s.DemandInRange ∧ (s.streamedPreference kernels < cbufBanks → ¬ s.SettlesEarly kernels → s.RowInRange)

theorem tryDemandBasedOps_iff (h : Plannable s kernels) {bytes : Nat}
    (hbytes : s.tryWeightBytes kernels = .ok bytes) :
    AllInRange (s.tryDemandBasedCbufPartitionOps kernels) ↔ s.DemandBasedInRange kernels := by
  have hgrant := (demandGrant_spec s kernels).1
  have hweights := weightBytesOps_inRange h hbytes
  have hcontraction := contractionOps_inRange h.wellFormed
  have hstreamed := streamedPreferenceOps_inRange h
  have hchannels := weightChannelsOps_inRange h.wellFormed
  have hfloor := weightBanksFloorOps_inRange h.wellFormed
  have hwhole : AllInRange (Tile.wholeOps s kernels) :=
    splitOps_inRange h (by decide) (s.outputHeight_pos kernels)
  unfold cbufBanks at hgrant
  have hbaseline := capacityOps_iff h.wellFormed (le_refl s.width)
    (show s.demandGrant kernels ≤ 11 by omega)
  have hwholeData := capacityOps_iff h.wellFormed (le_refl s.width)
    (show min s.dataBankDemand (cbufBanks - 1) ≤ 11 from min_le_right _ _)
  unfold Shape.tryDemandBasedCbufPartitionOps Shape.DemandBasedInRange
  simp only [allInRange_append, allInRange_cons, allInRange_nil, Op.InRange, and_true,
    dataBankDemandOps_iff h.wellFormed]
  have hhead : 12 ≥ s.demandGrant kernels := by omega
  by_cases hpref : s.streamedPreference kernels < cbufBanks
  · rw [if_pos hpref]
    by_cases hearly : s.SettlesEarly kernels
    · simp only [if_pos hearly, allInRange_append, allInRange_cons, allInRange_nil, Op.InRange, and_true]
      constructor
      · intro hops
        exact ⟨hops.1.1.1.1.1, fun _ hnot => absurd hearly hnot⟩
      · intro hcond
        refine ⟨⟨⟨⟨⟨hcond.1, hweights⟩, hhead⟩, hcontraction⟩, hstreamed⟩, ⟨hchannels, hfloor⟩, ?_⟩
        exact (min_le_right _ _).trans (Nat.sub_le _ _)
    · simp only [if_neg hearly, allInRange_append, allInRange_cons, allInRange_nil, Op.InRange, and_true,
        hbaseline, hwholeData]
      constructor
      · intro hops
        exact ⟨hops.1.1.1.1.1, fun _ _ => hops.2.2.2⟩
      · intro hcond
        have hrow := hcond.2 hpref hearly
        refine ⟨⟨⟨⟨⟨hcond.1, hweights⟩, hhead⟩, hcontraction⟩, hstreamed⟩, ⟨hchannels, hfloor⟩,
          ⟨⟨?_, hwhole⟩, hrow⟩, hrow⟩
        exact (min_le_right _ _).trans (Nat.sub_le _ _)
  · rw [if_neg hpref]
    constructor
    · intro hops
      exact ⟨hops.1.1.1.1.1, fun hlt => absurd hlt hpref⟩
    · intro hcond
      exact ⟨⟨⟨⟨⟨hcond.1, hweights⟩, hhead⟩, hcontraction⟩, hstreamed⟩, hchannels⟩

/-- `try_new` picks the partition of the shape from its demands. -/
def DemandBased (policy : PlanningPolicy) (s : Shape) (kernels : Kernels) : Prop :=
  if kernels.1 ≠ kernels.2 then
    s.stride = 1 ∧ s.weightBankDemand kernels ≤ (nonSquareLimit s.precision kernels).1
  else
    match kernels.1 with
    | 1 | 3 => True
    | 2 | 4 | 6 | 8 | 10 =>
      s.stride = 1 ∧ s.weightBankDemand kernels ≤ maxEvenSquareDemandBasedWeightBanks
    | 5 => (checkLargeKernelPlanCase policy s 5 true).isOk
    | 7 => (checkLargeKernelPlanCase policy s 7 true).isOk ∧ s.weightBankDemand kernels ≤ 7
    | _ => False

/-- `try_new` takes a captured partition, widened to the coefficients' working set. -/
def CapturedPartition (policy : PlanningPolicy) (s : Shape) (kernels : Kernels) : Prop :=
  kernels.1 = kernels.2 ∧
    match kernels.1 with
    | 7 => (checkLargeKernelPlanCase policy s 7 true).isOk ∧ ¬ s.weightBankDemand kernels ≤ 7
    | 9 => (checkLargeKernelPlanCase policy s 9 false).isOk
    | 11 => (checkLargeKernelPlanCase policy s 11 false).isOk
    | _ => False

theorem unstarvedOps_inRange (h : Plannable s kernels) (captured : Nat × Nat) :
    AllInRange (unstarvedLargeKernelPartitionOps s kernels captured) := by
  have hcontraction := contractionOps_inRange h.wellFormed
  have hstreamed := streamedPreferenceOps_inRange h
  simp only [unstarvedLargeKernelPartitionOps, allInRange_append, allInRange_cons, allInRange_nil,
    Op.InRange, and_true]
  exact ⟨⟨hcontraction, hstreamed⟩, unstarvedLargeKernelPartition_weights _ _ _⟩

theorem evenSquareOps_iff (h : Plannable s kernels) {bytes : Nat}
    (hbytes : s.tryWeightBytes kernels = .ok bytes) :
    AllInRange (evenSquareCbufPartitionOps s kernels) ↔ (s.stride = 1 ∧
      s.weightBankDemand kernels ≤ maxEvenSquareDemandBasedWeightBanks →
        s.DemandBasedInRange kernels) := by
  have hweights := weightBytesOps_inRange h hbytes
  have hdemand := tryDemandBasedOps_iff h hbytes
  unfold evenSquareCbufPartitionOps
  split
  · split <;> simp_all
  · simp_all

theorem nonSquareOps_iff (h : Plannable s kernels) {bytes : Nat}
    (hbytes : s.tryWeightBytes kernels = .ok bytes) :
    AllInRange (nonSquareCbufPartitionOps s kernels) ↔ (s.stride = 1 ∧
      s.weightBankDemand kernels ≤ (nonSquareLimit s.precision kernels).1 →
        s.DemandBasedInRange kernels) := by
  have hweights := weightBytesOps_inRange h hbytes
  have hdemand := tryDemandBasedOps_iff h hbytes
  unfold nonSquareCbufPartitionOps
  split
  · split <;> simp_all
  · simp_all

/-- Operations that follow a check which need not pass. -/
theorem allInRange_ite {cond : Prop} [Decidable cond] {ops : List Op} :
    AllInRange (if cond then ops else []) ↔ (cond → AllInRange ops) := by
  split <;> simp_all

/-- The partition stays in range exactly when the demand-based one does, where that is asked for. -/
theorem cbufPartitionOps_iff (h : Plannable s kernels) {policy : PlanningPolicy} {bytes : Nat}
    (hbytes : s.tryWeightBytes kernels = .ok bytes) :
    AllInRange (ConvPlan.cbufPartitionOps policy s kernels) ↔
      (DemandBased policy s kernels → s.DemandBasedInRange kernels) := by
  have hdemand := tryDemandBasedOps_iff h hbytes
  have heven := evenSquareOps_iff h hbytes
  have hweights := weightBytesOps_inRange h hbytes
  have hunstarved := unstarvedOps_inRange h
  unfold ConvPlan.cbufPartitionOps DemandBased
  by_cases hsquare : kernels.1 ≠ kernels.2
  · rw [if_pos hsquare, if_pos hsquare]
    exact nonSquareOps_iff h hbytes
  · rw [if_neg hsquare, if_neg hsquare]
    have hpos := h.fits.height_pos
    have hle := h.fits.height_le
    obtain ⟨height, width⟩ := kernels
    simp only at hpos hle
    simp only [ConvPlan.squarePartitionOps]
    interval_cases height
    · exact hdemand.trans (by simp)
    · exact heven
    · exact hdemand.trans (by simp)
    · exact heven
    · exact allInRange_ite.trans (imp_congr_right fun _ => hdemand)
    · exact heven
    · refine allInRange_ite.trans (Iff.trans (imp_congr_right fun _ => ?_) and_imp.symm)
      rw [allInRange_append]
      split
      · rename_i hfew
        exact ⟨fun hops _ => hdemand.mp hops.2, fun hcond => ⟨hweights, hdemand.mpr (hcond hfew)⟩⟩
      · rename_i hmany
        exact ⟨fun _ hfew => absurd hfew hmany, fun _ => ⟨hweights, hunstarved _⟩⟩
    · exact heven
    · exact allInRange_ite.trans ⟨fun _ hno => hno.elim, fun _ _ => hunstarved _⟩
    · exact heven
    · exact allInRange_ite.trans ⟨fun _ hno => hno.elim, fun _ _ => hunstarved _⟩

/-- Every partition leaves the data between one and eleven banks' worth at most. -/
theorem tryDemandBased_ok {banks : Nat × Nat} (h : s.tryDemandBasedCbufPartition kernels = .ok banks) :
    s.streamedPreference kernels < cbufBanks ∧ banks.1 ≤ 11 := by
  have hgrant := (demandGrant_spec s kernels).1
  have hfloor := (weightBanksFloor_bounds s.weightChannels).1
  unfold Shape.tryDemandBasedCbufPartition at h
  simp only [bind_ok, refuseUnless_ok, exists_const] at h
  obtain ⟨hpref, h⟩ := h
  refine ⟨hpref, ?_⟩
  unfold cbufBanks at *
  split_ifs at h
  · obtain rfl := pure_ok.mp h
    simp only
    omega
  · obtain rfl := pure_ok.mp h
    simp only
    omega
  · simp only [bind_ok] at h
    obtain ⟨baseline, -, wholeData, -, h⟩ := h
    split_ifs at h
    · obtain rfl := pure_ok.mp h
      exact min_le_right _ _
    · obtain rfl := pure_ok.mp h
      simp only
      omega

theorem tryDemandBased_of_settlesEarly (hpref : s.streamedPreference kernels < cbufBanks)
    (hearly : s.SettlesEarly kernels) : ∃ banks, s.tryDemandBasedCbufPartition kernels = .ok banks := by
  unfold Shape.tryDemandBasedCbufPartition
  simp only [bind_ok, refuseUnless_ok, exists_const]
  split_ifs with hstarved hclamped
  · exact ⟨_, hpref, rfl⟩
  · exact ⟨_, hpref, rfl⟩
  · exact absurd hearly (not_or.mpr ⟨hstarved, hclamped⟩)

theorem unstarved_banks (s : Shape) (kernels : Kernels) {captured : Nat × Nat} (h : 0 < captured.2) :
    (unstarvedLargeKernelPartition s kernels captured).1 ≤ 11 := by
  unfold unstarvedLargeKernelPartition cbufBanks
  simp only
  omega

theorem isOk_iff {α : Type} {x : Planner α} : x.isOk = true ↔ ∃ a, x = .ok a := by
  cases x <;> simp [Except.isOk, Except.toBool]

/-- A partition is granted by demand or taken from the captures. -/
theorem cbufPartition_cases (hk : KernelFits s kernels) {policy : PlanningPolicy} {banks : Nat × Nat}
    (h : ConvPlan.cbufPartition policy s kernels = .ok banks) : banks.1 ≤ 11 ∧
      (DemandBased policy s kernels ∧ s.streamedPreference kernels < cbufBanks ∨
        CapturedPartition policy s kernels) := by
  unfold ConvPlan.cbufPartition at h
  unfold DemandBased CapturedPartition
  by_cases hsquare : kernels.1 ≠ kernels.2
  · rw [if_pos hsquare] at h ⊢
    obtain ⟨hstride, -, hdemand, h⟩ := nonSquareCbufPartition_ok.mp h
    obtain ⟨hpref, hbanks⟩ := tryDemandBased_ok h
    exact ⟨hbanks, .inl ⟨⟨hstride, hdemand⟩, hpref⟩⟩
  · rw [if_neg hsquare] at h ⊢
    have hpos := hk.height_pos
    have hle := hk.height_le
    obtain ⟨height, width⟩ := kernels
    simp only at hpos hle
    have heven : ∀ {P : Prop}, evenSquareCbufPartition s (height, width) = .ok banks →
        banks.1 ≤ 11 ∧ ((s.stride = 1 ∧ s.weightBankDemand (height, width) ≤
          maxEvenSquareDemandBasedWeightBanks) ∧
            s.streamedPreference (height, width) < cbufBanks ∨ P) := fun h => by
      obtain ⟨hstride, hdemand, h⟩ := evenSquareCbufPartition_ok.mp h
      obtain ⟨hpref, hbanks⟩ := tryDemandBased_ok h
      exact ⟨hbanks, .inl ⟨⟨hstride, hdemand⟩, hpref⟩⟩
    simp only [ConvPlan.squarePartition] at h
    interval_cases height
    · exact ⟨(tryDemandBased_ok h).2, .inl ⟨trivial, (tryDemandBased_ok h).1⟩⟩
    · exact heven h
    · exact ⟨(tryDemandBased_ok h).2, .inl ⟨trivial, (tryDemandBased_ok h).1⟩⟩
    · exact heven h
    · simp only [bind_ok] at h
      obtain ⟨u, hcheck, h⟩ := h
      exact ⟨(tryDemandBased_ok h).2, .inl ⟨isOk_iff.mpr ⟨u, hcheck⟩, (tryDemandBased_ok h).1⟩⟩
    · exact heven h
    · simp only [bind_ok] at h
      obtain ⟨u, hcheck, h⟩ := h
      split_ifs at h with hfew
      · exact ⟨(tryDemandBased_ok h).2, .inl ⟨⟨isOk_iff.mpr ⟨u, hcheck⟩, hfew⟩, (tryDemandBased_ok h).1⟩⟩
      · obtain rfl := pure_ok.mp h
        exact ⟨unstarved_banks s _ (by decide),
          .inr ⟨not_not.mp hsquare, isOk_iff.mpr ⟨u, hcheck⟩, hfew⟩⟩
    · exact heven h
    · simp only [bind_ok, pure_ok] at h
      obtain ⟨u, hcheck, rfl⟩ := h
      refine ⟨unstarved_banks s _ ?_, .inr ⟨not_not.mp hsquare, isOk_iff.mpr ⟨u, hcheck⟩⟩⟩
      split_ifs <;> decide
    · exact heven h
    · simp only [bind_ok, pure_ok] at h
      obtain ⟨u, hcheck, rfl⟩ := h
      refine ⟨unstarved_banks s _ ?_, .inr ⟨not_not.mp hsquare, isOk_iff.mpr ⟨u, hcheck⟩⟩⟩
      split_ifs <;> decide

/-- Where the demand-based partition settles early, or the captures name one, there is a partition. -/
theorem cbufPartition_granted (hk : KernelFits s kernels) {policy : PlanningPolicy}
    (h : DemandBased policy s kernels ∧ s.streamedPreference kernels < cbufBanks ∧
        s.SettlesEarly kernels ∨ CapturedPartition policy s kernels) :
    ∃ banks, ConvPlan.cbufPartition policy s kernels = .ok banks := by
  unfold ConvPlan.cbufPartition
  unfold DemandBased CapturedPartition at h
  by_cases hsquare : kernels.1 ≠ kernels.2
  · rw [if_pos hsquare] at h ⊢
    rcases h with ⟨⟨hstride, hdemand⟩, hpref, hearly⟩ | ⟨hsame, -⟩
    · obtain ⟨banks, hbanks⟩ := tryDemandBased_of_settlesEarly hpref hearly
      exact ⟨banks, nonSquareCbufPartition_ok.mpr
        ⟨hstride, ⟨_, hk.tryKernelProgramming⟩, hdemand, hbanks⟩⟩
    · exact absurd hsame hsquare
  · rw [if_neg hsquare] at h ⊢
    have hpos := hk.height_pos
    have hle := hk.height_le
    obtain ⟨height, width⟩ := kernels
    simp only at hpos hle
    have hdemand : s.streamedPreference (height, width) < cbufBanks → s.SettlesEarly (height, width) →
        ∃ banks, s.tryDemandBasedCbufPartition (height, width) = .ok banks :=
      tryDemandBased_of_settlesEarly
    have heven : (s.stride = 1 ∧ s.weightBankDemand (height, width) ≤
        maxEvenSquareDemandBasedWeightBanks) ∧ s.streamedPreference (height, width) < cbufBanks ∧
          s.SettlesEarly (height, width) ∨ ((height, width).1 = (height, width).2 ∧ False) →
        ∃ banks, evenSquareCbufPartition s (height, width) = .ok banks := by
      rintro (⟨⟨hstride, hfew⟩, hpref, hearly⟩ | ⟨-, hno⟩)
      · obtain ⟨banks, hbanks⟩ := hdemand hpref hearly
        exact ⟨banks, evenSquareCbufPartition_ok.mpr ⟨hstride, hfew, hbanks⟩⟩
      · exact hno.elim
    simp only [ConvPlan.squarePartition]
    interval_cases height
    · exact h.elim (fun h => hdemand h.2.1 h.2.2) fun h => h.2.elim
    · exact heven h
    · exact h.elim (fun h => hdemand h.2.1 h.2.2) fun h => h.2.elim
    · exact heven h
    · rcases h with ⟨hcheck, hpref, hearly⟩ | ⟨-, hno⟩
      · obtain ⟨u, hcheck⟩ := isOk_iff.mp hcheck
        obtain ⟨banks, hbanks⟩ := hdemand hpref hearly
        exact ⟨banks, bind_ok.mpr ⟨u, hcheck, hbanks⟩⟩
      · exact hno.elim
    · exact heven h
    · simp only [bind_ok]
      rcases h with ⟨⟨hcheck, hfew⟩, hpref, hearly⟩ | ⟨-, hcheck, hmany⟩
      · obtain ⟨u, hcheck⟩ := isOk_iff.mp hcheck
        obtain ⟨banks, hbanks⟩ := hdemand hpref hearly
        exact ⟨banks, u, hcheck, by rw [if_pos hfew]; exact hbanks⟩
      · obtain ⟨u, hcheck⟩ := isOk_iff.mp hcheck
        exact ⟨_, u, hcheck, by rw [if_neg hmany]; rfl⟩
    · exact heven h
    · rcases h with ⟨hno, -⟩ | ⟨-, hcheck⟩
      · exact hno.elim
      · obtain ⟨u, hcheck⟩ := isOk_iff.mp hcheck
        exact ⟨_, bind_ok.mpr ⟨u, hcheck, rfl⟩⟩
    · exact heven h
    · rcases h with ⟨hno, -⟩ | ⟨-, hcheck⟩
      · exact hno.elim
      · obtain ⟨u, hcheck⟩ := isOk_iff.mp hcheck
        exact ⟨_, bind_ok.mpr ⟨u, hcheck, rfl⟩⟩

/-! ### Both planning entries -/

/-- The checks at the head of planning pass. -/
def Checked (s : Shape) (kernels : Kernels) : Prop :=
  KernelFits s kernels ∧ (s.tryWeightBytes kernels).isOk

theorem checkedOps_iff (h : s.WellFormed .default) {planning : List Op} :
    AllInRange (ConvPlan.checkedOps s kernels planning) ↔ (Checked s kernels → AllInRange planning) := by
  unfold ConvPlan.checkedOps
  split
  · rename_i stop hstop
    refine ⟨fun _ hchecked => ?_, fun _ => by simp⟩
    rw [hchecked.1.tryKernelProgramming] at hstop
    cases hstop
  · rename_i kernel hkernel
    obtain ⟨⟨hheight, hwidth⟩, ⟨htop, hleft⟩, rfl⟩ := tryKernelProgramming_ok.mp hkernel
    simp only [backed, Bool.and_eq_true, decide_eq_true_eq] at hheight hwidth
    have hextents : AllInRange (s.checkExtentsOps (s.kernelProgramming kernels)) :=
      checkExtentsOps_inRange h (by omega) (by omega)
    rw [allInRange_append, and_iff_right hextents]
    split
    · rename_i stop hstop
      refine ⟨fun _ hchecked => ?_, fun _ => by simp⟩
      rw [hchecked.1.checkExtentsAgainst] at hstop
      cases hstop
    · rename_i u hok
      have hfits := (kernelFits_of_checks hkernel hok).1
      rw [allInRange_append, and_iff_right (tryWeightBytesOps_inRange h)]
      split
      · rename_i stop hstop
        refine ⟨fun _ hchecked => ?_, fun _ => by simp⟩
        obtain ⟨bytes, hbytes⟩ := isOk_iff.mp hchecked.2
        rw [hbytes] at hstop
        cases hstop
      · rename_i bytes hbytes
        exact ⟨fun hops _ => hops, fun hcond => hcond ⟨hfits, isOk_iff.mpr ⟨bytes, hbytes⟩⟩⟩

/-- `try_new` asks for the row capacity of the full width: to compare it under two partitions, or for
a single column within the width bound. -/
def AsksFullRow (policy : PlanningPolicy) (s : Shape) (kernels : Kernels) : Prop :=
  DemandBased policy s kernels ∧ s.streamedPreference kernels < cbufBanks ∧
      (¬ s.SettlesEarly kernels ∨ s.width ≤ s.maxTileInputWidth) ∨
    CapturedPartition policy s kernels ∧ s.width ≤ s.maxTileInputWidth

/-- **Where planning stays inside `u32`.** On a shape the constructors accept, `try_new` evaluates no
plain `u32` operation out of range exactly when the product of the data-bank demand is in range
wherever the partition comes from the demands, and the bytes of a full-width row are wherever its row
capacity is asked for; `try_with_cbuf_banks` exactly when the sum of its banks and, within the width
bound, that row are. -/
theorem planning_in_range {shape : Shape} (hs : Shape.Built .default shape) (kernels : Kernels)
    (dataBanks weightBanks : Nat) :
    (AllInRange (ConvPlan.tryNewOps .default shape kernels) ↔ (Checked shape kernels →
      (DemandBased .default shape kernels → shape.DemandInRange) ∧
        (AsksFullRow .default shape kernels → shape.RowInRange))) ∧
    (AllInRange (ConvPlan.tryWithCbufBanksOps shape kernels dataBanks weightBanks) ↔
      (0 < dataBanks ∧ 0 < weightBanks → dataBanks + weightBanks < 2 ^ 32 ∧
        (dataBanks + weightBanks = cbufBanks → Checked shape kernels →
          shape.width ≤ shape.maxTileInputWidth → shape.RowInRange))) := by
  have hwf := hs.wellFormed
  constructor
  · refine (checkedOps_iff hwf).trans (forall_congr' fun hchecked => ?_)
    have hplan : Plannable shape kernels := ⟨hwf, hchecked.1⟩
    obtain ⟨bytes, hbytes⟩ := isOk_iff.mp hchecked.2
    rw [allInRange_append, cbufPartitionOps_iff hplan hbytes]
    constructor
    · rintro ⟨hdemand, hrest⟩
      have hwide : (∃ banks, ConvPlan.cbufPartition .default shape kernels = .ok banks) →
          shape.width ≤ shape.maxTileInputWidth → shape.RowInRange := by
        rintro ⟨banks, hbanks⟩
        rw [hbanks] at hrest
        exact (newWithCbufPartitionOps_iff hplan (cbufPartition_cases hchecked.1 hbanks).1).mp hrest
      refine ⟨fun h => (hdemand h).1, ?_⟩
      rintro (⟨hbased, hpref, hasked⟩ | ⟨hcaptured, hwidth⟩)
      · by_cases hearly : shape.SettlesEarly kernels
        · exact hwide (cbufPartition_granted hchecked.1 (.inl ⟨hbased, hpref, hearly⟩))
            (hasked.resolve_left (not_not.mpr hearly))
        · exact (hdemand hbased).2 hpref hearly
      · exact hwide (cbufPartition_granted hchecked.1 (.inr hcaptured)) hwidth
    · rintro ⟨hdemand, hrow⟩
      refine ⟨fun hbased => ⟨hdemand hbased, fun hpref hearly =>
        hrow (.inl ⟨hbased, hpref, .inl hearly⟩)⟩, ?_⟩
      split
      · simp
      · rename_i banks hbanks
        obtain ⟨hle, hcases⟩ := cbufPartition_cases hchecked.1 hbanks
        refine (newWithCbufPartitionOps_iff hplan hle).mpr fun hwidth => hrow ?_
        rcases hcases with ⟨hbased, hpref⟩ | hcaptured
        · exact .inl ⟨hbased, hpref, .inr hwidth⟩
        · exact .inr ⟨hcaptured, hwidth⟩
  · refine allInRange_ite.trans (imp_congr_right fun hpos => ?_)
    simp only [allInRange_append, allInRange_cons, allInRange_nil, Op.InRange, and_true]
    refine and_congr_right fun hsum => ?_
    rw [wrap32_of_lt hsum]
    refine allInRange_ite.trans (imp_congr_right fun htotal => ?_)
    refine (checkedOps_iff hwf).trans (forall_congr' fun hchecked => ?_)
    unfold cbufBanks at htotal
    exact newWithCbufPartitionOps_iff ⟨hwf, hchecked.1⟩ (by omega)

end Planning

instance (s : Shape) : Decidable s.DemandInRange := by
  unfold Shape.DemandInRange
  cases s.layout <;> simp only <;> infer_instance

instance (s : Shape) : Decidable s.RowInRange :=
  inferInstanceAs (Decidable (s.rowBytes s.width < 2 ^ 32))

/-- A pointwise convolution of a square fp16 image with 512 input channels. -/
def pointwise (extent : Nat) : Shape :=
  { width := extent, height := extent, stride := 1, inChannels := 512, outChannels := 8
    precision := .fp16, padding := none, activation := .none, depthwise := false }

theorem pointwise_built : Shape.Built .default (pointwise 56) :=
  .withPrecision (by decide) (by decide) (by decide)
    (rfl : Shape.tryWithPrecision .default 56 56 1 512 8 .fp16 = _)

/-- A common layer plans without leaving the type. -/
theorem planning_in_range_pointwise :
    AllInRange (ConvPlan.tryNewOps .default (pointwise 56) (1, 1)) ∧
      AllInRange (ConvPlan.tryWithCbufBanksOps (pointwise 56) (1, 1) 6 6) :=
  ⟨(planning_in_range pointwise_built (1, 1) 6 6).1.mpr fun _ =>
      ⟨fun _ => by decide, fun _ => by decide⟩,
    (planning_in_range pointwise_built (1, 1) 6 6).2.mpr fun _ =>
      ⟨by decide, fun _ _ _ => by decide⟩⟩

/-- An image whose surface stride is below `2 ^ 32` while its data-bank demand is not. -/
theorem planning_overflows : ¬ ∀ (shape : Shape) (kernels : Kernels) (dataBanks weightBanks : Nat),
    Shape.Built .default shape → AllInRange (ConvPlan.tryNewOps .default shape kernels) ∧
      AllInRange (ConvPlan.tryWithCbufBanksOps shape kernels dataBanks weightBanks) := by
  intro h
  have hbuilt : Shape.Built .default (pointwise 16000) :=
    .withPrecision (by decide) (by decide) (by decide)
      (rfl : Shape.tryWithPrecision .default 16000 16000 1 512 8 .fp16 = _)
  have hfits : KernelFits (pointwise 16000) (1, 1) := by
    constructor <;> decide
  have hbytes : (pointwise 16000).tryWeightBytes (1, 1) = .ok 8192 := rfl
  have hops := (checkedOps_iff hbuilt.wellFormed).mp (h (pointwise 16000) (1, 1) 6 6 hbuilt).1
    ⟨hfits, isOk_iff.mpr ⟨_, hbytes⟩⟩
  have hdemand := (cbufPartitionOps_iff ⟨hbuilt.wellFormed, hfits⟩ hbytes).mp
    (allInRange_append.mp hops).1 trivial
  exact absurd hdemand.1 (by decide)

end IreeRocket.Conv
