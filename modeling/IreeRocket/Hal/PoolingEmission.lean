import IreeRocket.Hal.PoolingProgram
import IreeRocket.Hal.PoolingTiles
import Mathlib.Tactic.IntervalCases

/-!
# Which pooling shapes can be emitted

A valid shape keeps every register within its width (`poolingRegisters_fit`), and its balanced cut keeps
the output width limit. Three things are left to chance: that a tile reads no more columns than the
direct limit, that it reads one at all, and that an fp16 average has no one-tap axis. `emits_iff` says
that nothing else stops a program.
-/

namespace IreeRocket.Pooling

open Hal Segments Windows

variable {s : PoolingShape}

/-! ### The cut keeps the output limit -/

theorem limits_avoid (h : s.AvoidsEqualTiles) : (directWidthLimits s).2 = 65 := by
  obtain ⟨hprecision, hk2, -⟩ := h
  unfold directWidthLimits
  rw [if_pos hk2, hprecision]
  rfl

theorem tileOutputWidth_le (hs : s.Valid) {index : Nat} (h : index < s.tileCount) :
    s.tileOutputWidth index ≤ (directWidthLimits s).2 := by
  unfold PoolingShape.tileOutputWidth
  dsimp only
  split_ifs with havoid hwider
  · have hlimit := limits_avoid havoid
    obtain ⟨-, -, hcount, -, hbase⟩ := havoid
    omega
  all_goals
    have hpos := hs.tileCount_pos
    have hcover : s.outputWidth ≤ s.tileCount * (directWidthLimits s).2 :=
      le_ceilDiv_mul _ s.limits_pos
    have hbalance : s.outputWidth ⌈/⌉ s.tileCount ≤ (directWidthLimits s).2 :=
      (ceilDiv_le_iff_le_mul hpos).mpr hcover
    rw [ceilDiv_eq _ hpos] at hbalance
  · have hmod := Nat.mod_lt s.outputWidth hpos
    rw [if_neg (by omega)] at hbalance
    exact hbalance
  · split_ifs at hbalance <;> omega

/-! ### What the planner takes for granted -/

/-- The columns a tile reads at an index, in the padded line, are no more than the direct limit. -/
def SpanFits (s : PoolingShape) (index : Nat) : Prop :=
  min ((s.cutFirst (index + 1) - 1) * s.strideX + s.kernelWidth) (s.inputWidth + s.padLeft) ≤
    max (s.cutFirst index * s.strideX) s.padLeft + (directWidthLimits s).1

instance (s : PoolingShape) (index : Nat) : Decidable (SpanFits s index) :=
  inferInstanceAs (Decidable (_ ≤ _))

/-- Every tile reads no more columns than the direct limit. -/
def SpansFit (s : PoolingShape) : Prop := ∀ index < s.tileCount, SpanFits s index

instance (s : PoolingShape) : Decidable (SpansFit s) :=
  inferInstanceAs (Decidable (∀ index < s.tileCount, SpanFits s index))

/-- An fp16 average pool has no one-tap axis, whose reciprocal is past fp16's range. -/
def ReciprocalsEncode (s : PoolingShape) : Prop :=
  s.method = .avg → s.precision = .fp16 → 2 ≤ s.kernelWidth ∧ 2 ≤ s.kernelHeight

instance (s : PoolingShape) : Decidable (ReciprocalsEncode s) := inferInstanceAs (Decidable (_ → _))

/-- A tile that reads a column is planned exactly when its windows reach the image and its columns fit. -/
theorem exists_tile_iff (hs : s.Valid) {index : Nat} (h : index < s.tileCount) :
    (∃ t, IsTile s index t ∧ 0 < t.inputWidth) ↔ Touches s index ∧ SpanFits s index := by
  have hspan : ∀ t, s.tileAt (s.cutFirst index) (s.tileOutputWidth index) = .ok t →
      Touches s index → (t.inputWidth ≤ (directWidthLimits s).1 ↔ SpanFits s index) := by
    intro t ht htouches
    obtain ⟨hcut, hfirst, hwidth⟩ := tileAt_ok ht
    have hin := hcut.inFirst
    have hend := hcut.inEnd
    change (t.inputFirst : Int) = max (s.axis.spanFirst t.outputFirst) 0 at hin
    change ((t.inputFirst + t.inputWidth : Nat) : Int) =
      max (min (s.axis.spanEnd (t.outputFirst + t.outputWidth)) s.inputWidth) 0 at hend
    rw [hfirst] at hin
    rw [hfirst, hwidth, ← s.cutFirst_succ] at hend
    obtain ⟨hbegins, hreaches⟩ := htouches
    unfold SpanFits
    unfold Axis.spanFirst PoolingShape.axis at hin hbegins
    unfold Axis.spanEnd PoolingShape.axis at hend hreaches
    dsimp only at hin hend hbegins hreaches
    omega
  constructor
  · rintro ⟨t, htile, hpos⟩
    have htouches := (htile.inputWidth_pos_iff hs).mp hpos
    exact ⟨htouches, (hspan t htile.tileAt htouches).mp htile.limits.1⟩
  · rintro ⟨htouches, hfits⟩
    have hplanned : ∃ t, s.tileAt (s.cutFirst index) (s.tileOutputWidth index) = .ok t := by
      obtain ⟨hbegins, hreaches⟩ := htouches
      have hpos := PoolingShape.tileOutputWidth_pos hs index
      have himage := hs.inputWidth.1
      rw [tileAt_isOk, ← s.cutFirst_succ]
      have hwindow := spanFirst_lt_spanEnd hs index
      omega
    obtain ⟨t, ht⟩ := hplanned
    have htile : IsTile s index t :=
      ⟨ht, (hspan t ht htouches).mpr hfits, by
        rw [(tileAt_ok ht).2.2]
        exact tileOutputWidth_le hs h⟩
    exact ⟨t, htile, (htile.inputWidth_pos_iff hs).mpr htouches⟩

/-! ### Reciprocals -/

/-- A direct kernel axis has a reciprocal, of at most 17 bits, but for one tap at fp16. -/
theorem averageReciprocal_spec (precision : PoolingPrecision) {kernel : Nat} (hpos : 1 ≤ kernel)
    (hdirect : kernel ≤ 8) :
    (precision = .fp16 → 2 ≤ kernel) ∧
        (∃ recip, averageReciprocal kernel precision = .ok recip ∧ recip < 2 ^ 17) ∨
      ¬ (precision = .fp16 → 2 ≤ kernel) ∧ ∃ stop, averageReciprocal kernel precision = .error stop := by
  interval_cases kernel <;> cases precision
  case «1».fp16 => exact .inr ⟨by decide, _, rfl⟩
  all_goals exact .inl ⟨by decide, _, rfl, by decide⟩

/-- The two reciprocals are computed unless an axis has none. -/
theorem reciprocals_spec (hs : s.Valid) :
    ReciprocalsEncode s ∧
        (∃ recips, reciprocals s = .ok recips ∧ recips.1 < 2 ^ 17 ∧ recips.2 < 2 ^ 17) ∨
      ¬ ReciprocalsEncode s ∧ ∃ stop, reciprocals s = .error stop := by
  unfold ReciprocalsEncode reciprocals
  cases s.method with
  | max | min => exact .inl ⟨by simp, _, rfl, by decide, by decide⟩
  | avg =>
    have hw := averageReciprocal_spec s.precision hs.kernelWidth.1 hs.kernelWidth.2
    have hh := averageReciprocal_spec s.precision hs.kernelHeight.1 hs.kernelHeight.2
    rcases hw with ⟨hwide, width, hwidth, hwlt⟩ | ⟨hnarrow, stop, hstop⟩
    · rcases hh with ⟨htall, height, hheight, hhlt⟩ | ⟨hshort, stop, hstop⟩
      · refine .inl ⟨fun _ hp => ⟨hwide hp, htall hp⟩, (width, height), ?_, hwlt, hhlt⟩
        simp only [hwidth, hheight]
        rfl
      · refine .inr ⟨fun h => hshort fun hp => (h rfl hp).2, stop, ?_⟩
        simp only [hwidth, hstop]
        rfl
    · refine .inr ⟨fun h => hnarrow fun hp => (h rfl hp).1, stop, ?_⟩
      simp only [hstop]
      rfl

/-! ### The registers -/

/-- The padding a tile needs is no more than the shape has. -/
theorem IsTile.padding_le (hs : s.Valid) {index : Nat} (h : index < s.tileCount) {t : PoolingTile}
    (htile : IsTile s index t) : t.padLeft ≤ s.padLeft ∧ t.padRight ≤ s.padRight := by
  obtain ⟨hcut, hfirst, hwidth⟩ := tileAt_ok htile.tileAt
  have hleft := hcut.padBefore
  have hright := hcut.padAfter
  change (t.padLeft : Int) = max (-s.axis.spanFirst t.outputFirst) 0 at hleft
  change (t.padRight : Int) =
    max (s.axis.spanEnd (t.outputFirst + t.outputWidth) - s.inputWidth) 0 at hright
  rw [hfirst, hwidth, ← s.cutFirst_succ] at hright
  have hend := spanEnd_mono s (show index + 1 ≤ s.tileCount from h)
  have hlast : (s.outputWidth - 1) * s.strideX ≤ s.inputWidth + s.padLeft + s.padRight - s.kernelWidth := by
    rw [hs.outputWidth_eq, Nat.add_sub_cancel]
    exact Nat.div_mul_le_self _ _
  have hkernel := hs.kernelWidth_le
  rw [PoolingShape.cutFirst_count hs] at hend
  unfold Axis.spanEnd PoolingShape.axis at hend hright
  unfold Axis.spanFirst PoolingShape.axis at hleft
  dsimp only at hend hleft hright
  omega

theorem programmedPadBottom_le (hs : s.Valid) : programmedPadBottom s ≤ s.padBottom := by
  have hlast : (s.outputHeight - 1) * s.strideY ≤ s.inputHeight + s.padTop + s.padBottom - s.kernelHeight := by
    rw [hs.outputHeight_eq, Nat.add_sub_cancel]
    exact Nat.div_mul_le_self _ _
  have hkernel := hs.kernelHeight_le
  unfold programmedPadBottom requiredTrailingPadding
  omega

/-- An extent of at most 8192 stays within it when rounded up to an atom. -/
theorem programmedChannels_le (hs : s.Valid) : programmedChannels s ≤ 8192 := by
  unfold programmedChannels
  cases s.precision with
  | int8 => exact nextMultipleOf_le 512 (by decide) hs.inputChannels.2
  | fp16 => exact nextMultipleOf_le 1024 (by decide) hs.inputChannels.2

/-- A surface of an image is at most 2^26 pixels, which is a multiple of four. -/
theorem surface_lt {width height : Nat} (hwidth : width ≤ 8192) (hheight : height ≤ 8192) :
    nextMultipleOf (width * atomicKSize * height / featureAtomicSize) 4 < 2 ^ 28 := by
  have harea : width * height ≤ 8192 * 8192 := Nat.mul_le_mul hwidth hheight
  have hpixels : width * atomicKSize * height / featureAtomicSize = width * height := by
    rw [Nat.mul_right_comm]
    exact Nat.mul_div_cancel _ (by decide)
  rw [hpixels]
  exact Nat.lt_of_le_of_lt (nextMultipleOf_le (2 ^ 24) (by decide) harea) (by decide)

/-- The kick writes nothing that may not fit. -/
theorem allFit_pushPpuKick (commands : List PpuCmd) :
    AllFit (pushPpuKick commands) ↔ AllFit commands := by
  have hkick : AllFit ([zero .pcSingleTaskPlaceholder, zero .pcRegisterAmounts,
      zero .pcRequiredMarker, ⟨.pcOperationEnable, [⟨32, kickPpu⟩]⟩] : List PpuCmd) := by decide
  have hpad (n : Nat) : AllFit (List.replicate n (zero PpuReg.pcAlignmentPadding)) := by
    intro c hc
    rw [List.eq_of_mem_replicate hc]
    exact fits_zero _
  unfold pushPpuKick
  rw [allFit_append, allFit_append, and_iff_left hkick, and_iff_left (hpad _)]

theorem method_bits_lt (method : PoolingMethod) : method.bits < 4 := by
  cases method <;> decide

theorem precision_lt (precision : PoolingPrecision) :
    precision.ppuPrecision < 8 ∧ precision.rdmaPrecision < 4 := by
  cases precision <;> decide

/-- **Every field fits its register.** -/
theorem poolingRegisters_fit (hs : s.Valid) {index : Nat} (hindex : index < s.tileCount)
    {t : PoolingTile} (htile : IsTile s index t) {recipWidth recipHeight : Nat}
    (hwidth : recipWidth < 2 ^ 17) (hheight : recipHeight < 2 ^ 17) {inputAddr outputAddr : Nat}
    (hout : outputAddr < 2 ^ 32) :
    AllFit (poolingRegisters s t recipWidth recipHeight inputAddr outputAddr) := by
  obtain ⟨hcut, -, hwhole⟩ := tileAt_ok htile.tileAt
  have hin : t.inputWidth ≤ s.inputWidth := by
    have hle := hcut.inEnd_le
    change t.inputFirst + t.inputWidth ≤ s.inputWidth at hle
    omega
  have hcolumns : 1 ≤ t.outputWidth ∧ t.outputWidth ≤ 8192 := by
    have hle := s.cutFirst_mono (show index + 1 ≤ s.tileCount from hindex)
    have hpos := PoolingShape.tileOutputWidth_pos hs index
    have hmax := hs.outputWidth.2
    rw [s.cutFirst_succ, PoolingShape.cutFirst_count hs] at hle
    rw [hwhole]
    omega
  obtain ⟨hleft, hright⟩ := htile.padding_le hs hindex
  have hbottom := programmedPadBottom_le hs
  have hchannels := programmedChannels_le hs
  have hdst : dstSurfStride s < 2 ^ 28 := surface_lt hs.outputWidth.2 hs.outputHeight.2
  have hsrc : srcSurfStride s < 2 ^ 28 := surface_lt hs.inputWidth.2 hs.inputHeight.2
  have hline : srcLineStride s < 2 ^ 28 := by
    have hmax := hs.inputWidth.2
    unfold srcLineStride atomicKSize featureAtomicSize
    omega
  have hmethod := method_bits_lt s.method
  obtain ⟨hppu, hrdma⟩ := precision_lt s.precision
  obtain ⟨hiw, hih, -, how, hoh, hkw, hkh, hsx, hsy, hpads, -⟩ := hs
  unfold poolingRegisters
  rw [allFit_pushPpuKick, allFit_append, allFit_append]
  refine ⟨⟨by decide, ?_⟩, ?_⟩
  · simp [ppuRegisters, PpuCmd.cube, PpuCmd.operationModeCfg, PpuCmd.poolingKernelCfg,
      PpuCmd.recipKernel, PpuCmd.poolingPaddingCfg, PpuCmd.paddingValue1Cfg,
      PpuCmd.dstBaseAddr, PpuCmd.stride, PpuCmd.dataFormat, PpuCmd.miscCtrl]
    omega
  · simp [ppuRdmaRegisters, PpuCmd.cube, PpuCmd.rdmaSrcBaseAddr, PpuCmd.stride,
      PpuCmd.rdmaDataFormat]
    omega

/-! ### Emission -/

/-- The addresses the tiles begin at are addresses: none overflows. -/
def AddressesFit (s : PoolingShape) (bufs : PoolingBuffers) : Prop :=
  ∀ index < s.tileCount,
    bufs.inputAddr + (s.cutFirst index * s.strideX - s.padLeft) * 16 < 2 ^ 32 ∧
      bufs.outputAddr + s.cutFirst index * 16 < 2 ^ 32

instance (s : PoolingShape) (bufs : PoolingBuffers) : Decidable (AddressesFit s bufs) :=
  inferInstanceAs (Decidable (∀ index < s.tileCount, _))

/-- What a valid shape needs to be emitted. -/
structure Emittable (s : PoolingShape) : Prop where
  spans : SpansFit s
  edges : EdgesTouch s
  reciprocals : ReciprocalsEncode s

variable {bufs : PoolingBuffers} {index : Nat} {t : PoolingTile}

/-- The task of a planned tile is built exactly when the tile reads a column and its reciprocals exist. -/
theorem buildPoolingTileTask_isOk (hs : s.Valid) (hindex : index < s.tileCount) (htile : IsTile s index t)
    (haddr : AddressesFit s bufs) (halign : 16 ∣ bufs.outputAddr) :
    (∃ commands, buildPoolingTileTask s t bufs.inputAddr (bufs.outputAddr + t.outputFirst * 16) =
        .ok commands) ↔ 0 < t.inputWidth ∧ ReciprocalsEncode s := by
  obtain ⟨hinput, houtput⟩ := haddr index hindex
  obtain ⟨hcut, hfirst, -⟩ := tileAt_ok htile.tileAt
  have hin := hcut.inFirst
  change (t.inputFirst : Int) = max (s.axis.spanFirst t.outputFirst) 0 at hin
  unfold Axis.spanFirst PoolingShape.axis at hin
  rw [hfirst] at hin
  dsimp only at hin
  unfold buildPoolingTileTask
  simp only [bind_ok, validate_ok, assertThat_ok, pure_ok, exists_const]
  constructor
  · rintro ⟨commands, -, -, -, -, recips, hrecips, hpos, -⟩
    rcases reciprocals_spec hs with ⟨hencode, -⟩ | ⟨-, stop, hstop⟩
    · exact ⟨hpos, hencode⟩
    · rw [hstop] at hrecips
      cases hrecips
  · rintro ⟨hpos, hencode⟩
    rcases reciprocals_spec hs with ⟨-, recips, hrecips, hw, hh⟩ | ⟨hnone, -⟩
    · refine ⟨_, hs, htile.limits, by omega, by omega, recips, hrecips, hpos, ?_, rfl⟩
      exact poolingRegisters_fit hs hindex htile hw hh (by rw [hfirst]; exact houtput)
    · exact absurd hencode hnone

/-- **A valid pooling shape is emitted exactly when its tiles fit the direct input width, its edge tiles
reach the image, and an fp16 average has no one-tap axis.** -/
theorem emits_iff (hs : s.Valid) (haddr : AddressesFit s bufs) (halign : 16 ∣ bufs.outputAddr) :
    (∃ programs, emitPooling s bufs = .ok programs) ↔ Emittable s := by
  have htask : ∀ {i : Nat} {t : PoolingTile}, i < s.tileCount → IsTile s i t →
      ((∃ commands, (do
          assertThat (bufs.outputAddr + t.outputFirst * 16 < 2 ^ 32)
            "pooling tile output address overflows u32"
          buildPoolingTileTask s t bufs.inputAddr (bufs.outputAddr + t.outputFirst * 16)) =
        .ok commands) ↔ 0 < t.inputWidth ∧ ReciprocalsEncode s) := by
    intro i t hi ht
    have haddress := (haddr i hi).2
    rw [← (tileAt_ok ht.tileAt).2.1] at haddress
    simp only [bind_ok, assertThat_ok, exists_const, haddress, true_and]
    exact buildPoolingTileTask_isOk hs hi ht haddr halign
  unfold emitPooling PoolingPlan.programsWithBuffers
  simp only [bind_ok]
  constructor
  · rintro ⟨programs, plan, hplan, hprograms⟩
    obtain ⟨-, hshape, htiles⟩ := new_ok.mp hplan
    have htasks := mapM_isOk.mp ⟨programs, hprograms⟩
    rw [hshape] at htasks
    have htile : ∀ i < s.tileCount, (Touches s i ∧ SpanFits s i) ∧ ReciprocalsEncode s := by
      intro i hi
      obtain ⟨t, ht, hplanned⟩ := mem_of_forall₂ htiles (List.mem_range.mpr hi)
      obtain ⟨hpos, hencode⟩ := (htask hi hplanned).mp (htasks t ht)
      exact ⟨(exists_tile_iff hs hi).mp ⟨t, hplanned, hpos⟩, hencode⟩
    exact {
      spans := fun i hi => (htile i hi).1.2
      edges := (touches_iff hs).mp fun i hi => (htile i hi).1.1
      reciprocals := (htile 0 hs.tileCount_pos).2 }
  · rintro ⟨hspans, hedges, hencode⟩
    have htile : ∀ i ∈ List.range s.tileCount, ∃ t, IsTile s i t ∧ 0 < t.inputWidth := by
      intro i hi
      have hi := List.mem_range.mp hi
      exact (exists_tile_iff hs hi).mpr ⟨(touches_iff hs).mpr hedges i hi, hspans i hi⟩
    obtain ⟨tiles, htiles⟩ := exists_forall₂ htile
    have hplan : PoolingPlan.new s = .ok ⟨s, tiles⟩ :=
      new_ok.mpr ⟨hs, rfl, htiles.imp fun _ _ h => h.1⟩
    have hprograms := mapM_isOk.mpr fun t ht => by
      obtain ⟨i, hi, hplanned, hpos⟩ := mem_of_forall₂ htiles.flip ht
      exact (htask (List.mem_range.mp hi) hplanned).mpr ⟨hpos, hencode⟩
    obtain ⟨programs, hprograms⟩ := hprograms
    exact ⟨programs, _, hplan, hprograms⟩

end IreeRocket.Pooling
