import IreeRocket.Core.Admission
import IreeRocket.Core.PlanTotal
import Mathlib.Tactic.IntervalCases

/-!
# What admission promises of planning

Admission and planning are two rule sets. `Envelope` is what they share: the atoms, the coefficient
working set and the cost of one output column that an admitted shape class may have. Inside it the
demand-based partition is never refused and a column of one output always fits the data banks it
grants, so a surface layout is planned whatever its extents; a dense one may still be too wide for
the buffer, and the planner then asks for the columns it does not cut.
-/

namespace IreeRocket

open Conv

/-! ### The envelope of an admitted shape -/

/-- The entries one output column may occupy: its rows at the full kernel span or one stride block, of
a line that is as wide as a kernel over a stride. -/
def columnCost (kernels : Kernels) (stride atoms : Nat) : Nat :=
  max kernels.1 stride * (((stride + kernels.2 - 1) * atoms) ⌈/⌉ cbufAtomsPerEntry)

/-- The banks the coefficient working set of a shape asks for. -/
def preference (s : Shape) (kernels : Kernels) : Nat :=
  streamedWeightBankPreference s.streamedContractionChannels kernels s.precision.elementBits

/-- What admission guarantees of a shape, at any extents. One column costs at most one bank; or its
atoms are few enough, and its working set small enough, for the partition to find two or three. -/
structure Envelope (s : Shape) (kernels : Kernels) : Prop where
  square : kernels = (1, 1) ∨ kernels = (3, 3)
  stride_le : s.stride ≤ 4
  bits : s.precision.elementBits = 8 ∨ s.precision.elementBits = 16
  channels_le : s.cbufAtoms * s.precision.channelsPerAtom ≤ 4096
  out_le : s.outChannels ≤ 4096
  preference_lt : preference s kernels < cbufBanks
  cost : columnCost kernels s.stride s.cbufAtoms ≤ 512 ∨
    (s.cbufAtoms ≤ 256 ∧ preference s kernels ≤ 8 ∧
      (columnCost kernels s.stride s.cbufAtoms ≤ 1024 ∨
        (columnCost kernels s.stride s.cbufAtoms ≤ 1536 ∧ s.weightBankDemand kernels ≤ 8)))

/-- An atom count within a multiple of four stays within it when it is rounded up. -/
theorem quadAtoms_le_of_le {atoms bound : Nat} (h : atoms ≤ bound) (hquad : bound % 4 = 0) :
    quadAtoms atoms ≤ bound := by
  unfold quadAtoms
  split_ifs <;> omega

theorem quadAtoms_mod (atoms : Nat) : quadAtoms atoms % 4 ≠ 3 := by
  unfold quadAtoms
  split_ifs <;> omega

/-- The atoms of a channel count within a ceiling. -/
theorem featureAtoms_le {s : Shape} {bound : Nat} (hpos : 0 < bound)
    (h : s.inChannels ≤ bound * s.precision.channelsPerAtom) : s.featureAtoms ≤ bound := by
  have hatoms : s.inChannels ⌈/⌉ s.precision.channelsPerAtom ≤ bound := by
    rw [ceilDiv_le_iff_le_mul s.precision.channelsPerAtom_pos, Nat.mul_comm]
    exact h
  exact max_le hatoms hpos

theorem cbufAtoms_le {s : Shape} {bound : Nat} (hpos : 0 < bound) (hquad : bound % 4 = 0)
    (h : s.inChannels ≤ bound * s.precision.channelsPerAtom) : s.cbufAtoms ≤ bound :=
  quadAtoms_le_of_le (featureAtoms_le hpos h) hquad

/-- The cost of a column grows with its atoms. -/
theorem columnCost_mono (kernels : Kernels) (stride : Nat) {atoms bound : Nat} (h : atoms ≤ bound) :
    columnCost kernels stride atoms ≤ columnCost kernels stride bound :=
  Nat.mul_le_mul_left _ (ceilDiv_mono _ (Nat.mul_le_mul_left _ h))

/-! ### Working sets -/

/-- A 1x1 kernel's working set is at most eight banks. -/
theorem preference_one_le {weightChannels bits : Nat} (h : weightChannels ≤ 4096) (hbits : bits ≤ 16) :
    streamedWeightBankPreference weightChannels (1, 1) bits ≤ 8 := by
  have hgroup : 64 * max (bits / 16) 1 = 64 := by omega
  have hundivided : streamedWeightBankPreferenceForGroup weightChannels (1, 1) 1 bits ≤ 8 := by
    unfold streamedWeightBankPreferenceForGroup wrap32 cbufEntryBytes cbufEntriesPerBank cbufBankBytes
      cbufEntryBytes
    simp only [Nat.ceilDiv_eq_add_pred_div, hgroup, if_true, Nat.one_mul]
    omega
  unfold streamedWeightBankPreference maxUndividedWeightBanks cbufBanks
  simp only
  rw [if_pos (by omega)]
  exact hundivided

/-- A depthwise output channel accumulates over one input channel: one bank holds its working set. -/
theorem preference_depthwise {kernels : Kernels} (h : kernels = (1, 1) ∨ kernels = (3, 3)) {bits : Nat}
    (hbits : bits = 8 ∨ bits = 16) : streamedWeightBankPreference 1 kernels bits = 1 := by
  rcases h with rfl | rfl <;> rcases hbits with rfl | rfl <;> decide

/-- A 3x3 fp16 kernel over at most 144 atoms, as the buffer bills them. -/
theorem preference_three_fp16 : ∀ atoms ≤ 144, atoms % 4 ≠ 3 →
    streamedWeightBankPreference (atoms * 8) (3, 3) 16 < cbufBanks := by
  decide +kernel

/-- A 3x3 int8 kernel over at most 72 atoms. -/
theorem preference_three_int8 : ∀ atoms ≤ 72,
    streamedWeightBankPreference (atoms * 16) (3, 3) 8 < cbufBanks := by
  decide +kernel

section WorkingSets

variable {s : Shape} {kernels : Kernels}

/-- Both layouts program at most the channels the buffer bills. -/
theorem weightChannels_le (s : Shape) :
    s.weightChannels ≤ s.cbufAtoms * s.precision.channelsPerAtom := by
  unfold Shape.weightChannels Shape.paddedChannels Shape.cbufAtoms
  split_ifs
  · exact Nat.mod_le _ _
  · exact (Nat.mod_le _ _).trans (Nat.mul_le_mul_right _ (le_quadAtoms _))

theorem preference_dense_one (hdense : s.depthwise = false) (hbits : s.precision.elementBits ≤ 16)
    (h : s.cbufAtoms * s.precision.channelsPerAtom ≤ 4096) : preference s (1, 1) ≤ 8 := by
  unfold preference Shape.streamedContractionChannels
  simp only [hdense, Bool.false_eq_true, if_false]
  exact preference_one_le ((weightChannels_le s).trans h) hbits

theorem preference_dense_three (hdense : s.depthwise = false)
    (hbits : s.precision.elementBits = 8 ∨ s.precision.elementBits = 16)
    (h : s.cbufAtoms * s.precision.channelsPerAtom ≤ 1152) : preference s (3, 3) < cbufBanks := by
  have hfill := s.precision.channelsPerAtom_mul_elementBits
  have hle := le_quadAtoms s.featureAtoms
  have hcontraction : s.streamedContractionChannels = s.weightChannels := by
    unfold Shape.streamedContractionChannels
    simp [hdense]
  unfold preference
  unfold Shape.cbufAtoms at h
  rw [hcontraction]
  rcases hbits with hbits | hbits
  · rw [hbits] at hfill
    rw [show s.precision.channelsPerAtom = 16 by omega] at h
    have hchannels : s.weightChannels = s.featureAtoms * 16 := by
      unfold Shape.weightChannels Shape.paddedChannels Precision.sharesFp16Layout
      rw [show s.precision.channelsPerAtom = 16 by omega, hbits]
      exact wrap32_of_lt (by omega)
    rw [hchannels, hbits]
    exact preference_three_int8 _ (by omega)
  · rw [hbits] at hfill
    rw [show s.precision.channelsPerAtom = 8 by omega] at h
    have hchannels : s.weightChannels = quadAtoms s.featureAtoms * 8 := by
      unfold Shape.weightChannels Precision.sharesFp16Layout
      rw [show s.precision.channelsPerAtom = 8 by omega, hbits]
      exact wrap32_of_lt (by omega)
    rw [hchannels, hbits]
    exact preference_three_fp16 _ (by omega) (quadAtoms_mod _)

theorem preference_of_depthwise (hd : s.depthwise = true) (hk : kernels = (1, 1) ∨ kernels = (3, 3))
    (hbits : s.precision.elementBits = 8 ∨ s.precision.elementBits = 16) :
    preference s kernels = 1 := by
  unfold preference Shape.streamedContractionChannels
  rw [if_pos hd]
  exact preference_depthwise hk hbits

/-- The coefficients of a depthwise shape are a few banks at most. -/
theorem weightBankDemand_depthwise (hd : s.depthwise = true)
    (hk : kernels = (1, 1) ∨ kernels = (3, 3)) (hbits : s.precision.elementBits ≤ 16)
    (h : s.cbufAtoms * s.precision.channelsPerAtom ≤ 4096) : s.weightBankDemand kernels ≤ 8 := by
  have hproduct : s.cbufAtoms * s.precision.channelsPerAtom * s.precision.elementBits ≤ 4096 * 16 :=
    Nat.mul_le_mul h hbits
  have hbytes : s.weightBytes kernels ≤ 9 * 8192 := by
    unfold Shape.weightBytes Precision.bytesFor
    simp only [hd, if_true, kernelProgramming_height, kernelProgramming_width]
    rw [wrap32_of_lt (n := s.cbufAtoms * s.precision.channelsPerAtom) (by omega),
      wrap32_of_lt (n := _ * s.precision.elementBits) (by omega)]
    refine (Nat.mod_le _ _).trans (Nat.mul_le_mul ?_ (by omega))
    rcases hk with rfl | rfl <;> decide
  unfold Shape.weightBankDemand cbufBankBytes
  rw [Nat.ceilDiv_eq_add_pred_div]
  omega

end WorkingSets

/-! ### The rows of the table -/

section Rows

variable {s : Shape} {kernels : Kernels} {bound : Nat}

theorem Envelope.of_dense_one (hdense : s.depthwise = false)
    (hbits : s.precision.elementBits = 8 ∨ s.precision.elementBits = 16) (hstride : s.stride ≤ 4)
    (hout : s.outChannels ≤ 4096) (hatoms : s.cbufAtoms ≤ bound)
    (hbound : bound * s.precision.channelsPerAtom ≤ 4096)
    (hcost : columnCost (1, 1) s.stride bound ≤ 512 ∨
      (bound ≤ 256 ∧ columnCost (1, 1) s.stride bound ≤ 1024)) : Envelope s (1, 1) := by
  have hchannels := (Nat.mul_le_mul_right s.precision.channelsPerAtom hatoms).trans hbound
  have hpref := preference_dense_one hdense (by omega) hchannels
  have hmono := columnCost_mono (1, 1) s.stride hatoms
  refine ⟨.inl rfl, hstride, hbits, hchannels, hout, hpref.trans_lt (by decide), ?_⟩
  rcases hcost with h | ⟨h256, h⟩
  · exact .inl (hmono.trans h)
  · exact .inr ⟨hatoms.trans h256, hpref, .inl (hmono.trans h)⟩

theorem Envelope.of_dense_three (hdense : s.depthwise = false)
    (hbits : s.precision.elementBits = 8 ∨ s.precision.elementBits = 16) (hstride : s.stride ≤ 4)
    (hout : s.outChannels ≤ 4096) (hatoms : s.cbufAtoms ≤ bound)
    (hbound : bound * s.precision.channelsPerAtom ≤ 1152)
    (hcost : columnCost (3, 3) s.stride bound ≤ 512) : Envelope s (3, 3) := by
  have hchannels := (Nat.mul_le_mul_right s.precision.channelsPerAtom hatoms).trans hbound
  exact ⟨.inr rfl, hstride, hbits, by omega, hout, preference_dense_three hdense hbits hchannels,
    .inl ((columnCost_mono _ _ hatoms).trans hcost)⟩

theorem Envelope.of_depthwise (hd : s.depthwise = true) (hk : kernels = (1, 1) ∨ kernels = (3, 3))
    (hbits : s.precision.elementBits = 8 ∨ s.precision.elementBits = 16) (hstride : s.stride ≤ 4)
    (hout : s.outChannels ≤ 4096) (hatoms : s.cbufAtoms ≤ bound) (h256 : bound ≤ 256)
    (hbound : bound * s.precision.channelsPerAtom ≤ 4096)
    (hcost : columnCost kernels s.stride bound ≤ 1536) : Envelope s kernels := by
  have hchannels := (Nat.mul_le_mul_right s.precision.channelsPerAtom hatoms).trans hbound
  have hpref := preference_of_depthwise hd hk hbits
  have hdemand := weightBankDemand_depthwise hd hk (by omega) hchannels
  refine ⟨hk, hstride, hbits, hchannels, hout, by rw [hpref]; decide, .inr ⟨hatoms.trans h256, ?_,
    .inr ⟨(columnCost_mono _ _ hatoms).trans hcost, hdemand⟩⟩⟩
  rw [hpref]
  decide

/-- The channels of an atom, by class. -/
def PrecisionClass.atomChannels : PrecisionClass → Nat
  | fp16 => 8
  | int8Accumulator | int8Requant => 16

theorem PrecisionClass.of_channelsPerAtom {p : Precision} {cls : PrecisionClass}
    (h : PrecisionClass.of p = some cls) : p.channelsPerAtom = cls.atomChannels := by
  cases p <;> cases h <;> simp [Precision.channelsPerAtom, Precision.elementBits, featureAtomBytes,
    PrecisionClass.atomChannels]

/-- Every row of the table keeps to the envelope. -/
theorem Envelope.of_row {cls : PrecisionClass} {depthwise : Bool} {kernel : Nat}
    {ceilings : ChannelCeilings}
    (h : classCeilings cls depthwise kernel s.stride = some ceilings) (hd : s.depthwise = depthwise)
    (hstride : s.stride ≤ 4) (hcpa : s.precision.channelsPerAtom = cls.atomChannels)
    (hin : s.inChannels ≤ ceilings.inChannels) (hout : s.outChannels ≤ ceilings.outChannels) :
    Envelope s (kernel, kernel) := by
  have hfill := s.precision.channelsPerAtom_mul_elementBits
  have hbits : s.precision.elementBits = 8 ∨ s.precision.elementBits = 16 := by
    rw [hcpa] at hfill
    cases cls <;> simp only [PrecisionClass.atomChannels] at hfill <;> omega
  have hatoms : ∀ bound, 0 < bound → bound % 4 = 0 →
      ceilings.inChannels ≤ bound * cls.atomChannels → s.cbufAtoms ≤ bound := fun bound hpos hquad hle =>
    cbufAtoms_le hpos hquad (hin.trans (by rw [hcpa]; exact hle))
  unfold classCeilings at h
  split at h
  · obtain rfl := Option.some.inj h
    exact .of_depthwise hd (.inl rfl) hbits hstride (hout.trans (by decide))
      (hatoms 192 (by decide) (by decide) (by decide)) (by decide) (by rw [hcpa]; decide)
      ((by decide : ∀ stride ≤ 4, columnCost (1, 1) stride 192 ≤ 1536) _ hstride)
  · obtain rfl := Option.some.inj h
    exact .of_depthwise hd (.inr rfl) hbits hstride (hout.trans (by decide))
      (hatoms 192 (by decide) (by decide) (by decide)) (by decide) (by rw [hcpa]; decide)
      ((by decide : ∀ stride ≤ 4, columnCost (3, 3) stride 192 ≤ 1536) _ hstride)
  · split_ifs at h with htwo
    · obtain rfl := Option.some.inj h
      exact .of_dense_one hd hbits hstride (hout.trans (by decide))
        (hatoms 512 (by decide) (by decide) (by decide)) (by rw [hcpa]; decide)
        (.inl ((by decide : ∀ stride ≤ 2, columnCost (1, 1) stride 512 ≤ 512) _ htwo))
    · obtain rfl := Option.some.inj h
      exact .of_dense_one hd hbits hstride (hout.trans (by decide))
        (hatoms 64 (by decide) (by decide) (by decide)) (by rw [hcpa]; decide)
        (.inl ((by decide : ∀ stride ≤ 4, columnCost (1, 1) stride 64 ≤ 512) _ hstride))
  · split_ifs at h with htwo
    · obtain rfl := Option.some.inj h
      exact .of_dense_three hd hbits hstride (hout.trans (by decide))
        (hatoms 144 (by decide) (by decide) (by decide)) (by rw [hcpa]; decide)
        ((by decide : ∀ stride ≤ 2, columnCost (3, 3) stride 144 ≤ 512) _ htwo)
    · obtain rfl := Option.some.inj h
      exact .of_dense_three hd hbits hstride (hout.trans (by decide))
        (hatoms 64 (by decide) (by decide) (by decide)) (by rw [hcpa]; decide)
        ((by decide : ∀ stride ≤ 4, columnCost (3, 3) stride 64 ≤ 512) _ hstride)
  · obtain rfl := Option.some.inj h
    exact .of_dense_one hd hbits hstride (hout.trans (by decide))
      (hatoms 256 (by decide) (by decide) (by decide)) (by rw [hcpa]; decide)
      (.inr ⟨by decide, (by decide : ∀ stride ≤ 4, columnCost (1, 1) stride 256 ≤ 1024) _ hstride⟩)
  · obtain rfl := Option.some.inj h
    exact .of_dense_three hd hbits hstride (hout.trans (by decide))
      (hatoms 72 (by decide) (by decide) (by decide)) (by rw [hcpa]; decide)
      ((by decide : ∀ stride ≤ 4, columnCost (3, 3) stride 72 ≤ 512) _ hstride)
  · obtain rfl := Option.some.inj h
    exact .of_depthwise hd (.inl rfl) hbits hstride (hout.trans (by decide))
      (hatoms 84 (by decide) (by decide) (by decide)) (by decide) (by rw [hcpa]; decide)
      ((by decide : ∀ stride ≤ 4, columnCost (1, 1) stride 84 ≤ 1536) _ hstride)
  · obtain rfl := Option.some.inj h
    exact .of_depthwise hd (.inr rfl) hbits hstride (hout.trans (by decide))
      (hatoms 84 (by decide) (by decide) (by decide)) (by decide) (by rw [hcpa]; decide)
      ((by decide : ∀ stride ≤ 4, columnCost (3, 3) stride 84 ≤ 1536) _ hstride)
  · obtain rfl := Option.some.inj h
    exact .of_dense_one hd hbits hstride (hout.trans (by decide))
      (hatoms 84 (by decide) (by decide) (by decide)) (by rw [hcpa]; decide)
      (.inl ((by decide : ∀ stride ≤ 4, columnCost (1, 1) stride 84 ≤ 512) _ hstride))
  · obtain rfl := Option.some.inj h
    exact .of_dense_three hd hbits hstride (hout.trans (by decide))
      (hatoms 48 (by decide) (by decide) (by decide)) (by rw [hcpa]; decide)
      ((by decide : ∀ stride ≤ 4, columnCost (3, 3) stride 48 ≤ 512) _ hstride)
  · obtain rfl := Option.some.inj h
    exact .of_depthwise hd (.inl rfl) hbits hstride (hout.trans (by decide))
      (hatoms 84 (by decide) (by decide) (by decide)) (by decide) (by rw [hcpa]; decide)
      ((by decide : ∀ stride ≤ 4, columnCost (1, 1) stride 84 ≤ 1536) _ hstride)
  · obtain rfl := Option.some.inj h
    exact .of_depthwise hd (.inr rfl) hbits hstride (hout.trans (by decide))
      (hatoms 84 (by decide) (by decide) (by decide)) (by decide) (by rw [hcpa]; decide)
      ((by decide : ∀ stride ≤ 4, columnCost (3, 3) stride 84 ≤ 1536) _ hstride)
  · cases h

/-- `s` has the stride, the channels, the precision and the kind of the request. -/
structure ConvAdmission.Describes (admission : ConvAdmission) (s : Shape) : Prop where
  stride : s.stride = admission.stride
  inChannels : s.inChannels = admission.inChannels
  outChannels : s.outChannels = admission.outChannels
  precision : s.precision = admission.precision
  depthwise : s.depthwise = admission.depthwise

/-- **Admission keeps to the envelope.** Every row of the table does, at every stride it admits. -/
theorem envelope_of_admitConv {admission : ConvAdmission} {u : Unit} {s : Shape}
    (h : admitConv admission = .ok u) (hs : admission.Describes s) :
    Envelope s (admission.kernelHeight, admission.kernelWidth) := by
  obtain ⟨hsquare, ⟨-, hstride⟩, cls, ceilings, hcls, hceilings, -, hin, -, hout, -⟩ :=
    admitConv_ok.mp h
  rw [← hsquare]
  rw [← hs.stride, ← hs.depthwise] at hceilings
  rw [← hs.stride] at hstride
  rw [← hs.inChannels] at hin
  rw [← hs.outChannels] at hout
  rw [← hs.precision] at hcls
  exact .of_row hceilings rfl hstride (PrecisionClass.of_channelsPerAtom hcls) hin hout

end Rows

/-! ### Columns of one output -/

section Columns

variable {policy : PlanningPolicy} {s : Shape} {kernels : Kernels}

theorem Envelope.elementBytes_pos (h : Envelope s kernels) (_ : s.layout = .dense) :
    0 < s.precision.elementBytes := by
  have hbits := h.bits
  unfold Precision.elementBytes
  omega

theorem Envelope.atoms_le (h : Envelope s kernels) : s.cbufAtoms ≤ 512 := by
  have hchannels := h.channels_le
  have hfill := s.precision.channelsPerAtom_mul_elementBits
  have hcpa : 8 ≤ s.precision.channelsPerAtom := by
    rcases h.bits with hbits | hbits <;> rw [hbits] at hfill <;> omega
  have := Nat.mul_le_mul_left s.cbufAtoms hcpa
  omega

/-- A column of one output reads at most a kernel over a stride. -/
theorem inCols_one_le (hk : KernelFits s kernels) (hstride : 0 < s.stride) {c : ColumnTile}
    (h : ColumnTile.fromOutputRange s kernels c.outFirst 1 = .ok c) :
    c.inCols ≤ s.stride + kernels.2 - 1 := by
  have hwidth := hk.width_fits
  have hpos := hk.width_pos
  unfold ColumnTile.fromOutputRange at h
  simp only [bind_ok, assertThat_ok, pure_ok, exists_const, kernelProgramming_width] at h
  obtain ⟨-, h⟩ := h
  rw [← h]
  simp only [Nat.add_sub_cancel, Nat.one_mul]
  split_ifs with hfull
  · -- The one output spans the row, which then ends within a stride of its last tap.
    obtain ⟨hfirst, hone⟩ := hfull
    have hlast : (s.width + 2 * (s.kernelProgramming kernels).padLeft - kernels.2) / s.stride = 0 := by
      unfold Shape.outputWidth at hone
      simp only [kernelProgramming_width] at hone
      omega
    have hlt := (Nat.div_eq_zero_iff_lt hstride).mp hlast
    omega
  · omega

/-- Rows and columns within a demand of one or two banks stay within them when a line is rounded up
to whole entries. -/
theorem rows_fit_demand {rows inCols atoms banks : Nat} (hatoms : atoms ≤ 256) (hquad : atoms % 4 ≠ 3)
    (hcols : inCols ≤ 6) (hrows : rows ≤ 4) (hbanks : banks ≤ 2)
    (h : rows * inCols * atoms ≤ 2048 * banks) :
    rows * ((inCols * atoms) ⌈/⌉ cbufAtomsPerEntry) ≤ 512 * banks := by
  unfold cbufAtomsPerEntry
  rw [Nat.ceilDiv_eq_add_pred_div]
  -- 227 atoms would need a 171st entry of three rows in one bank; the buffer bills 228 for them.
  have hne : atoms ≠ 227 := by omega
  interval_cases banks <;> interval_cases rows <;> interval_cases inCols <;> omega

/-- The data banks that the partition grants hold a column of one output. -/
theorem Envelope.rows_fit (h : Envelope s kernels) (rows : Nat) {dataBanks inCols : Nat}
    (hpixels : s.width * s.height * s.cbufAtoms < 2 ^ 32) (hsurf : s.layout = .surfaces)
    (hbanks : 1 ≤ dataBanks)
    (hgrant : min s.dataBankDemand (min (cbufBanks - s.weightBankDemand kernels)
      (cbufBanks - max 5 (preference s kernels))) ≤ dataBanks)
    (htwo : preference s kernels ≤ 10 → min s.dataBankDemand 2 ≤ dataBanks)
    (hrows : rows ≤ max kernels.1 s.stride) (hheight : rows ≤ s.height)
    (hcols : inCols ≤ s.stride + kernels.2 - 1) (hwidth : inCols ≤ s.width) :
    rows * ((inCols * s.cbufAtoms) ⌈/⌉ cbufAtomsPerEntry) ≤ 512 * dataBanks := by
  have hstride := h.stride_le
  have hkernel : kernels.1 ≤ 3 ∧ kernels.2 ≤ 3 := by
    rcases h.square with rfl | rfl <;> decide
  have hcost : rows * ((inCols * s.cbufAtoms) ⌈/⌉ cbufAtomsPerEntry) ≤
      columnCost kernels s.stride s.cbufAtoms :=
    Nat.mul_le_mul hrows (ceilDiv_mono _ (Nat.mul_le_mul_right _ hcols))
  rcases h.cost with hone | ⟨hatoms, hpref, hmore⟩
  · omega
  · by_cases hdemand : s.dataBankDemand ≤ dataBanks
    · by_cases hthree : 3 ≤ dataBanks
      · omega
      · refine rows_fit_demand hatoms (quadAtoms_mod _) (by omega) (by omega) (by omega) ?_
        have hall : rows * inCols * s.cbufAtoms ≤ s.width * s.height * s.cbufAtoms := by
          rw [Nat.mul_comm rows]
          exact Nat.mul_le_mul_right _ (Nat.mul_le_mul hwidth hheight)
        have hround := le_ceilDiv_mul (s.width * s.height * s.cbufAtoms)
          (show 0 < 2 * pixelsPerBankStep by decide)
        unfold Shape.dataBankDemand at hdemand
        simp only [hsurf, wrap32_of_lt hpixels] at hdemand
        unfold pixelsPerBankStep at *
        omega
    · have htwo := htwo (by omega)
      unfold cbufBanks at hgrant
      omega

/-- Every column of one output fits, under the banks the partition grants. -/
theorem Envelope.columnFits (h : Envelope s kernels) (hs : s.WellFormed policy)
    (hk : KernelFits s kernels) (hsurf : s.layout = .surfaces)
    (hpixels : s.width * s.height * s.cbufAtoms < 2 ^ 32) (hrow : s.rowBytes s.width < 2 ^ 32)
    {dataBanks : Nat} (hbanks : 1 ≤ dataBanks ∧ dataBanks < cbufBanks)
    (hgrant : min s.dataBankDemand (min (cbufBanks - s.weightBankDemand kernels)
      (cbufBanks - max 5 (preference s kernels))) ≤ dataBanks)
    (htwo : preference s kernels ≤ 10 → min s.dataBankDemand 2 ≤ dataBanks) {c : ColumnTile}
    (hc : ColumnTile.fromOutputRange s kernels c.outFirst 1 = .ok c) :
    ColumnFits s kernels dataBanks c := by
  have hcount := (ColumnTile.fromOutputRange_ok hc).2.1
  have hwidth := inCols_bounds hs hk (show ColumnTile.fromOutputRange s kernels c.outFirst c.outCols =
    .ok c by rw [hcount]; exact hc)
  have hcols := inCols_one_le hk hs.stride_pos hc
  have hstride := h.stride_le
  have hkernel : kernels.1 ≤ 3 ∧ kernels.2 ≤ 3 := by
    rcases h.square with rfl | rfl <;> decide
  have hpad := hk.padTop_lt
  have hbytes := h.elementBytes_pos
  have hrows := h.rows_fit (min s.height (max kernels.1 s.stride)) hpixels hsurf hbanks.1 hgrant htwo
    (min_le_right _ _) (min_le_left _ _) hcols hwidth.2
  generalize hspan : min s.height (max kernels.1 s.stride) = rows at hrows
  have hatoms := h.atoms_le
  have hmax : c.inCols ≤ s.maxTileInputWidth := by
    unfold Shape.maxTileInputWidth
    simp only [hsurf]
    split_ifs with hzero
    · exact hwidth.2
    · refine Nat.le_min.mpr ⟨?_, hwidth.2⟩
      have hslabs : s.cbufAtoms ⌈/⌉ cbufAtomsPerEntry ≤ 128 := by
        rw [ceilDiv_le_iff_le_mul (by decide)]
        exact hatoms
      rw [Nat.le_div_iff_mul_le (by omega)]
      have hproduct : c.inCols * (s.cbufAtoms ⌈/⌉ cbufAtomsPerEntry - 1) ≤ 6 * 127 :=
        Nat.mul_le_mul (by omega) (by omega)
      exact hproduct.trans (by decide)
  have hcapacity : rows ≤ s.rowCapacity c.inCols dataBanks := by
    refine s.le_rowCapacity hbytes hwidth.1 ?_ ?_
    · unfold Shape.rowBytes Shape.bankBytes featureAtomBytes cbufBankBytes
      simp only [hsurf]
      calc rows * ((c.inCols * s.cbufAtoms) ⌈/⌉ cbufAtomsPerEntry * cbufAtomsPerEntry * 16)
          = rows * ((c.inCols * s.cbufAtoms) ⌈/⌉ cbufAtomsPerEntry) * 64 := by
            unfold cbufAtomsPerEntry
            ring
        _ ≤ dataBanks * (256 * 128) := by omega
    · unfold Shape.cbufInputWidth
      simp only [hsurf]
      have : rows * c.inCols ≤ 4 * 6 := Nat.mul_le_mul (by omega) (by omega)
      exact this.trans (by decide)
  refine ⟨hmax, _, s.capacity_eq hbytes hbanks hwidth hrow, ?_⟩
  have hgrains : rows ≤ s.maxFeatureGrainInputRows kernels := by
    unfold Shape.maxFeatureGrainInputRows maxFeatureGrains
    simp only [kernelProgramming_height]
    omega
  by_cases hheight : s.height ≤ max kernels.1 s.stride
  · refine .inl ?_
    have hwhole : (Tile.whole s kernels).inRows ≤ s.height :=
      (Nat.min_le_right _ _).trans (Nat.sub_le _ _)
    omega
  · refine .inr ?_
    omega

end Columns

/-! ### Planning inside the envelope -/

section Planning

variable {policy : PlanningPolicy} {s : Shape} {kernels : Kernels}

/-- The coefficients of an admitted shape are countable in 32 bits. -/
theorem Envelope.tryWeightBytes_isOk (h : Envelope s kernels) (hk : KernelFits s kernels) :
    ∃ bytes, s.tryWeightBytes kernels = .ok bytes := by
  have hkernel : kernels.1 ≤ 3 ∧ kernels.2 ≤ 3 := by
    rcases h.square with rfl | rfl <;> decide
  have hchannels := h.channels_le
  have hprogrammed : s.programmedKernels ≤ 4097 := by
    have hout := h.out_le
    have hround := nextMultipleOf_lt s.outChannels (show 0 < 2 by decide)
    have hwrap := Nat.mod_le (nextMultipleOf s.outChannels 2) (2 ^ 32)
    unfold Shape.programmedKernels wrap32
    split_ifs <;> omega
  have helements : (if s.depthwise then s.cbufAtoms * s.precision.channelsPerAtom
      else s.weightChannels * s.programmedKernels) ≤ 4096 * 4097 := by
    split_ifs
    · omega
    · exact Nat.mul_le_mul ((weightChannels_le s).trans hchannels) hprogrammed
  have hbits : s.precision.elementBits ≤ 16 := by
    have := h.bits
    omega
  unfold Shape.tryWeightBytes
  simp only [bind_ok, refuseUnless_ok, pure_ok, exists_const, hk.tryKernelProgramming,
    Except.ok.injEq, exists_eq_left', kernelProgramming_height, kernelProgramming_width]
  refine ⟨_, ?_, rfl⟩
  generalize (if s.depthwise then s.cbufAtoms * s.precision.channelsPerAtom
    else s.weightChannels * s.programmedKernels) = elements at *
  have hcoefficients : wrap64 (elements * s.precision.elementBits) ≤ 4096 * 4097 * 16 :=
    (Nat.mod_le _ _).trans (Nat.mul_le_mul helements hbits)
  have hcolumn : wrap64 (wrap64 (elements * s.precision.elementBits) / 8 * kernels.1) ≤
      4096 * 4097 * 2 * 3 :=
    (Nat.mod_le _ _).trans (Nat.mul_le_mul (by omega) hkernel.1)
  have hbytes : wrap64 (wrap64 (wrap64 (elements * s.precision.elementBits) / 8 * kernels.1) *
      kernels.2) ≤ 4096 * 4097 * 2 * 3 * 3 :=
    (Nat.mod_le _ _).trans (Nat.mul_le_mul hcolumn hkernel.2)
  omega

/-- A row of a dense image stays inside `u32`. -/
theorem Envelope.rowBytes_dense (h : Envelope s kernels) (hs : s.WellFormed policy)
    (hdense : s.layout = .dense) : s.rowBytes s.width < 2 ^ 32 := by
  have hwidth := hs.width_lt
  have hfill := s.precision.channelsPerAtom_mul_elementBits
  have hcpa : s.precision.channelsPerAtom ≤ 16 := by
    rcases h.bits with hbits | hbits <;> rw [hbits] at hfill <;> omega
  have hround := nextMultipleOf_lt s.width s.precision.channelsPerAtom_pos
  have hpixel : s.denseCbufPixelBytes ≤ 4 * 2 := by
    refine Nat.mul_le_mul s.storedChannels_le ?_
    have hbits := h.bits
    unfold Precision.elementBytes
    omega
  unfold Shape.rowBytes Shape.cbufInputWidth
  simp only [hdense]
  have hrow := Nat.mul_le_mul (show nextMultipleOf s.width s.precision.channelsPerAtom ≤ 2 ^ 28 + 16 by
    omega) hpixel
  exact hrow.trans_lt (by decide)

/-- **Inside the envelope the partition is found**, and planning is the search under it. -/
theorem Envelope.tryNew_eq (h : Envelope s kernels) (hs : s.WellFormed policy)
    (hk : KernelFits s kernels) (hrow : s.rowBytes s.width < 2 ^ 32) :
    ∃ dataBanks weightBanks,
      ConvPlan.cbufPartition policy s kernels = .ok (dataBanks, weightBanks) ∧
      ConvPlan.tryNew policy s kernels =
        ConvPlan.newWithCbufPartition s kernels dataBanks weightBanks ∧
      (1 ≤ dataBanks ∧ dataBanks < cbufBanks) ∧
      min s.dataBankDemand (min (cbufBanks - s.weightBankDemand kernels)
        (cbufBanks - max 5 (preference s kernels))) ≤ dataBanks ∧
      (preference s kernels ≤ 10 → min s.dataBankDemand 2 ≤ dataBanks) := by
  obtain ⟨bytes, hbytes⟩ := h.tryWeightBytes_isOk hk
  obtain ⟨dataBanks, weightBanks, hdemand, hbanks, hgrant, htwo⟩ :=
    tryDemandBasedCbufPartition_isOk h.elementBytes_pos hs.width_pos hrow h.preference_lt
  have hpartition : ConvPlan.cbufPartition policy s kernels = .ok (dataBanks, weightBanks) := by
    rw [← hdemand]
    rcases h.square with rfl | rfl <;> rfl
  refine ⟨dataBanks, weightBanks, hpartition, ?_, hbanks, hgrant, htwo⟩
  unfold ConvPlan.tryNew
  rw [hk.tryKernelProgramming, hbytes, hpartition]
  simp only [bind, Except.bind, hk.checkExtentsAgainst]

/-- No captured partition is inside the envelope. -/
theorem Envelope.not_captured (h : Envelope s kernels) : capturedColumnPartition s kernels = none := by
  unfold capturedColumnPartition
  rcases h.square with rfl | rfl <;> simp

/-- **An admitted surface layout is planned** at any extents whose products stay inside `u32`. -/
theorem Envelope.tryNew_surfaces (h : Envelope s kernels) (hs : s.WellFormed policy)
    (hk : KernelFits s kernels) (hsurf : s.layout = .surfaces)
    (hpixels : s.width * s.height * s.cbufAtoms < 2 ^ 32) (hrow : s.rowBytes s.width < 2 ^ 32) :
    ∃ plan, ConvPlan.tryNew policy s kernels = .ok plan := by
  obtain ⟨dataBanks, weightBanks, -, hnew, hbanks, hgrant, htwo⟩ := h.tryNew_eq hs hk hrow
  rw [hnew]
  exact newWithCbufPartition_surfaces hs hk hsurf h.elementBytes_pos hrow hbanks
    h.not_captured fun c hc => h.columnFits hs hk hsurf hpixels hrow hbanks hgrant htwo hc

/-- An admitted dense layout is planned or refused for the columns it would need. -/
theorem Envelope.tryNew_dense (h : Envelope s kernels) (hs : s.WellFormed policy)
    (hk : KernelFits s kernels) (hdense : s.layout = .dense) :
    ∃ dataBanks weightBanks,
      ConvPlan.cbufPartition policy s kernels = .ok (dataBanks, weightBanks) ∧
      min s.dataBankDemand (min (cbufBanks - s.weightBankDemand kernels)
        (cbufBanks - max 5 (preference s kernels))) ≤ dataBanks ∧
      ((∃ plan, ConvPlan.tryNew policy s kernels = .ok plan ∧
          RowsFit s kernels (s.fullWidthRows kernels dataBanks)) ∨
        (ConvPlan.tryNew policy s kernels = .error (.refused horizontalTilingRefusal) ∧
          ¬ DenseRowsFit s kernels (s.fullWidthRows kernels dataBanks))) := by
  have hrow := h.rowBytes_dense hs hdense
  obtain ⟨dataBanks, weightBanks, hpartition, hnew, hbanks, hgrant, -⟩ := h.tryNew_eq hs hk hrow
  refine ⟨dataBanks, weightBanks, hpartition, hgrant, ?_⟩
  rw [hnew]
  exact newWithCbufPartition_dense hs hk hdense h.elementBytes_pos hrow weightBanks hbanks

/-- What planning a constructed shape inside the envelope returns. A surface layout whose atoms and
row bytes stay inside `u32` is planned. A dense layout is never cut into columns: it is planned where
the image or, with rows at feature atoms, a kernel span fits the banks it is granted; otherwise it is
planned or refused for the columns it would need, and refused where no kernel span fits. -/
structure PlansInEnvelope (policy : PlanningPolicy) (s : Shape) (kernels : Kernels) : Prop where
  surfaces : s.layout = .surfaces → s.width * s.height * s.cbufAtoms < 2 ^ 32 →
    s.rowBytes s.width < 2 ^ 32 → ∃ plan, ConvPlan.tryNew policy s kernels = .ok plan
  dense : s.layout = .dense → ∃ dataBanks weightBanks,
    ConvPlan.cbufPartition policy s kernels = .ok (dataBanks, weightBanks) ∧
      ((∃ plan, ConvPlan.tryNew policy s kernels = .ok plan ∧
          RowsFit s kernels (s.fullWidthRows kernels dataBanks)) ∨
        (ConvPlan.tryNew policy s kernels = .error (.refused horizontalTilingRefusal) ∧
          ¬ DenseRowsFit s kernels (s.fullWidthRows kernels dataBanks)))

theorem Envelope.plans (h : Envelope s kernels) (hs : s.WellFormed policy)
    (hk : KernelFits s kernels) : PlansInEnvelope policy s kernels where
  surfaces := h.tryNew_surfaces hs hk
  dense := fun hdense => by
    obtain ⟨dataBanks, weightBanks, hpartition, -, hplan⟩ := h.tryNew_dense hs hk hdense
    exact ⟨dataBanks, weightBanks, hpartition, hplan⟩

end Planning

/-! ### Convolutions -/

namespace ConvRequest

/-- What the shape constructors ask of a request beyond its admission, and a kernel that fits. -/
structure Constructible (r : ConvRequest) : Prop where
  extents : 0 < r.width ∧ 0 < r.height
  surface : r.width * r.height * 16 < 2 ^ 32
  zeroPoints : r.admission.precision.accumulatorZeroPoints
  linear : r.admission.precision.writesAccumulators → r.activation = .none
  padding_lt : (kernelProgramming r.kernels r.padding).padTop < r.kernels.1 ∧
    (kernelProgramming r.kernels r.padding).padLeft < r.kernels.2
  kernel_le : r.kernels.1 ≤ r.height + 2 * (kernelProgramming r.kernels r.padding).padTop ∧
    r.kernels.2 ≤ r.width + 2 * (kernelProgramming r.kernels r.padding).padLeft

/-- The shape of a request. -/
def shape (r : ConvRequest) : Shape :=
  { width := r.width, height := r.height, stride := r.admission.stride
    inChannels := r.admission.inChannels, outChannels := r.admission.outChannels
    precision := r.admission.precision, padding := r.padding, activation := r.activation
    depthwise := r.admission.depthwise }

theorem describes (r : ConvRequest) : r.admission.Describes r.shape := ⟨rfl, rfl, rfl, rfl, rfl⟩

theorem classCeilings_le {cls : PrecisionClass} {depthwise : Bool} {kernel stride : Nat}
    {ceilings : ChannelCeilings} (h : classCeilings cls depthwise kernel stride = some ceilings) :
    ceilings.inChannels ≤ 4096 ∧ ceilings.outChannels ≤ 4096 ∧
      (depthwise → ceilings.inChannels ≤ 1792) := by
  unfold classCeilings at h
  split at h
  case h_3 | h_4 => split_ifs at h <;> cases h <;> decide
  all_goals cases h
  all_goals decide

/-- The constructors accept an admitted request. -/
theorem tryShape_isOk (policy : PlanningPolicy) {r : ConvRequest} (h : r.Constructible)
    (haccepted : admitConv r.admission = .ok ()) : r.tryShape policy = .ok r.shape := by
  have henvelope := envelope_of_admitConv haccepted r.describes
  obtain ⟨-, ⟨hstride, -⟩, cls, ceilings, hcls, hceilings, hpos, hin, -, hout, hdepthwise⟩ :=
    admitConv_ok.mp haccepted
  obtain ⟨hmaxin, hmaxout, hmaxdepthwise⟩ := classCeilings_le hceilings
  have hfp32 : r.admission.precision.writesFp32Result = false ∧ r.admission.precision ≠ .int4 := by
    cases hp : r.admission.precision <;> rw [hp] at hcls <;>
      simp_all [PrecisionClass.of, Precision.writesFp32Result]
  have hsurface := h.surface
  have hbase : Shape.tryWithPrecision policy r.width r.height r.admission.stride
      r.admission.inChannels r.admission.outChannels r.admission.precision =
      .ok { r.shape with padding := none, activation := .none, depthwise := false } := by
    unfold Shape.tryWithPrecision
    simp only [bind_ok, refuseUnless_ok, pure_ok, exists_const]
    rw [Precision.maxInChannels_eq, Precision.maxOutChannels_eq]
    refine ⟨h.extents, by omega, by omega, .inl (by omega), .inl (by omega),
      fun hint4 => absurd hint4 hfp32.2, h.zeroPoints, ?_, rfl⟩
    unfold featureAtomBytes
    omega
  have hpad : tryPad { r.shape with padding := none, activation := .none, depthwise := false }
      r.padding = .ok { r.shape with activation := .none, depthwise := false } := by
    cases hp : r.padding with
    | none => simp [tryPad, shape, hp]; rfl
    | some p =>
      have hlt := h.padding_lt
      simp only [kernelProgramming, hp, Option.getD_some] at hlt
      have hkernel : r.kernels.1 ≤ 3 ∧ r.kernels.2 ≤ 3 := by
        rcases henvelope.square with heq | heq <;> simp [kernels, heq]
      unfold tryPad Shape.tryWithPadding
      simp only [bind_ok, refuseUnless_ok, pure_ok, exists_const]
      exact ⟨by omega, by simp [shape, hp]⟩
  have hactivation : Shape.tryWithActivation
      { r.shape with activation := .none, depthwise := false } r.activation =
      .ok { r.shape with depthwise := false } := by
    unfold Shape.tryWithActivation
    simp only [bind_ok, refuseUnless_ok, pure_ok, exists_const]
    refine ⟨?_, rfl⟩
    by_cases hacc : r.admission.precision.writesAccumulators = true
    · exact .inr (h.linear hacc)
    · left
      simpa [shape] using hacc
  unfold tryShape
  simp only [bind_ok]
  refine ⟨_, hbase, _, hpad, _, hactivation, ?_⟩
  split_ifs with hd
  · have hbits := henvelope.bits
    have heq := hdepthwise hd
    have hchannels := hmaxdepthwise hd
    unfold Shape.tryWithDepthwise
    simp only [bind_ok, refuseUnless_ok, pure_ok, exists_const]
    refine ⟨heq, .inl ?_, ⟨hbits, ?_⟩, by simp [shape, hd]⟩
    · exact hin.trans hchannels
    · simp [shape, hfp32.1]
  · rw [pure_ok]
    simp [shape, hd]

theorem built {policy : PlanningPolicy} {r : ConvRequest} {s : Shape}
    (h : r.tryShape policy = .ok s) (hstride : r.admission.stride < 2 ^ 32)
    (hin : r.admission.inChannels < 2 ^ 32) (hout : r.admission.outChannels < 2 ^ 32) :
    s.Built policy := by
  unfold tryShape at h
  simp only [bind_ok] at h
  obtain ⟨base, hbase, padded, hpadded, active, hactive, h⟩ := h
  have hbuilt : padded.Built policy := by
    have hbase : base.Built policy := .withPrecision hstride hin hout hbase
    cases hp : r.padding with
    | none => rw [hp] at hpadded; exact pure_ok.mp hpadded ▸ hbase
    | some p => rw [hp] at hpadded; exact .withPadding hbase hpadded
  have hactive : active.Built policy := .withActivation hbuilt hactive
  split_ifs at h
  · exact .withDepthwise hactive h
  · exact pure_ok.mp h ▸ hactive

/-- The shape of an admitted request is well formed. -/
theorem wellFormed (policy : PlanningPolicy) {r : ConvRequest} (h : r.Constructible)
    (haccepted : admitConv r.admission = .ok ()) : r.shape.WellFormed policy := by
  obtain ⟨-, ⟨-, hstride⟩, cls, ceilings, -, hceilings, -, hin, -, hout, -⟩ := admitConv_ok.mp haccepted
  obtain ⟨hmaxin, hmaxout, -⟩ := classCeilings_le hceilings
  unfold maxAdmittedStride at hstride
  exact (built (tryShape_isOk policy h haccepted) (by omega) (by omega) (by omega)).wellFormed

theorem kernelFits {r : ConvRequest} (h : r.Constructible)
    (haccepted : admitConv r.admission = .ok ()) : KernelFits r.shape r.kernels := by
  have hkernel : (0 < r.kernels.1 ∧ r.kernels.1 ≤ 11) ∧ 0 < r.kernels.2 ∧ r.kernels.2 ≤ 11 := by
    rcases (envelope_of_admitConv haccepted r.describes).square with heq | heq <;> simp [kernels, heq]
  exact ⟨hkernel.1.1, hkernel.1.2, hkernel.2.1, hkernel.2.2, h.padding_lt.1, h.padding_lt.2,
    h.kernel_le.1, h.kernel_le.2⟩

/-- An admitted request is planned as far as its layout allows. -/
theorem plans (policy : PlanningPolicy) {r : ConvRequest} (h : r.Constructible)
    (haccepted : admitConv r.admission = .ok ()) :
    r.tryShape policy = .ok r.shape ∧ PlansInEnvelope policy r.shape r.kernels := by
  exact ⟨tryShape_isOk policy h haccepted, (envelope_of_admitConv haccepted r.describes).plans
    (wellFormed policy h haccepted) (kernelFits h haccepted)⟩

end ConvRequest

/-! ### Matmuls -/

/-- The convolution request of an admitted matmul: dense, 1x1, at stride one, on an image one row
high. -/
def MatmulAdmission.request (admission : MatmulAdmission) (activation : Activation) : ConvRequest where
  admission :=
    { precision := admission.precision, depthwise := false, kernelHeight := 1, kernelWidth := 1
      stride := 1, inChannels := admission.k, outChannels := admission.n }
  width := admission.m
  height := 1
  padding := some (0, 0)
  activation := activation

section Matmul

variable {admission : MatmulAdmission}

theorem admitConv_of_admitMatmul (h : admitMatmul admission = .ok ()) (activation : Activation) :
    admitConv (admission.request activation).admission = .ok () := by
  obtain ⟨hprecision, ⟨-, hk, hn⟩, -, hk4096, hn4096⟩ := admitMatmul_ok.mp h
  refine admitConv_ok.mpr ⟨rfl, ⟨Nat.one_ne_zero, show 1 ≤ 4 by decide⟩, .fp16, ⟨4096, 4096, 1⟩, ?_, rfl, ⟨hk, hn⟩, hk4096, ?_,
    hn4096, fun hd => nomatch hd⟩
  · show PrecisionClass.of admission.precision = some .fp16
    rw [hprecision]
    rfl
  · show 1 ≤ admission.n
    omega

theorem constructible_of_admitMatmul (h : admitMatmul admission = .ok ()) (activation : Activation) :
    (admission.request activation).Constructible := by
  obtain ⟨hprecision, ⟨hm, -, -⟩, hm4096, -, -⟩ := admitMatmul_ok.mp h
  have hfp16 : (admission.request activation).admission.precision = .fp16 := hprecision
  refine ⟨⟨by show 0 < admission.m; omega, Nat.one_pos⟩, ?_, by rw [hfp16]; rfl, ?_,
    ⟨Nat.one_pos, Nat.one_pos⟩, ?_⟩
  · show admission.m * 1 * 16 < 2 ^ 32
    omega
  · rw [hfp16]
    intro hacc
    cases hacc
  · show 1 ≤ 1 + 2 * 0 ∧ 1 ≤ admission.m + 2 * 0
    omega

/-- The fully-connected lowering builds the shape of the request. -/
theorem tryAsConvShape_eq (policy : PlanningPolicy) (activation : Activation) :
    Fc.Shape.tryAsConvShape policy
        ⟨admission.m, admission.k, admission.n, admission.precision, activation⟩ =
      (admission.request activation).tryShape policy := by
  unfold Fc.Shape.tryAsConvShape ConvRequest.tryShape
  simp [MatmulAdmission.request, ConvRequest.tryPad]

/-- A dense fp16 row of at most 4096 pixels is one row that the granted banks hold. -/
theorem denseRow_fits {s : Shape} (hprecision : s.precision = .fp16) (hkind : s.depthwise = false)
    (hdense : s.layout = .dense) (hwidth : 0 < s.width ∧ s.width ≤ 4096) (hheight : s.height = 1)
    (hout : s.outChannels ≤ 4096) (henvelope : Envelope s (1, 1)) {dataBanks : Nat}
    (hgrant : min s.dataBankDemand (min (cbufBanks - s.weightBankDemand (1, 1))
      (cbufBanks - max 5 (preference s (1, 1)))) ≤ dataBanks) :
    DenseRowsFit s (1, 1) (s.fullWidthRows (1, 1) dataBanks) := by
  have hcpa : s.precision.channelsPerAtom = 8 := by rw [hprecision]; rfl
  have hpixel : s.denseCbufPixelBytes ≤ 4 * 2 := by
    refine Nat.mul_le_mul s.storedChannels_le ?_
    rw [hprecision]
    decide
  have hcharged : s.cbufInputWidth s.width ≤ 4096 := by
    unfold Shape.cbufInputWidth nextMultipleOf
    simp only [hdense, hcpa]
    rw [Nat.ceilDiv_eq_add_pred_div]
    omega
  have hrow : s.cbufInputWidth s.width * s.denseCbufPixelBytes ≤ 4096 * 8 :=
    Nat.mul_le_mul hcharged hpixel
  -- Four banks hold the row, the coefficients want two at most and their working set eight.
  have hdata : s.cbufInputWidth s.width * s.denseCbufPixelBytes ≤ s.dataBankDemand * 8192 ∧
      s.dataBankDemand ≤ 4 := by
    unfold Shape.dataBankDemand pixelsPerBankStep
    simp only [hdense, hheight, Nat.mul_one]
    rw [wrap32_of_lt (n := s.cbufInputWidth s.width) (by omega), wrap32_of_lt (by omega),
      Nat.ceilDiv_eq_add_pred_div]
    omega
  have hweights : s.weightBankDemand (1, 1) ≤ 2 := by
    have hin : s.inChannels ≤ 4 := by
      by_contra hgt
      simp [Shape.layout, maxDenseChannels, hgt] at hdense
    have hchannels : s.weightChannels ≤ 8 := by
      refine (weightChannels_le s).trans ?_
      rw [hcpa]
      exact Nat.mul_le_mul_right 8 (show s.cbufAtoms ≤ 1 by
        unfold Shape.cbufAtoms Shape.featureAtoms quadAtoms
        rw [hcpa, Nat.ceilDiv_eq_add_pred_div]
        split_ifs <;> omega)
    have hprogrammed : s.programmedKernels = s.outChannels := by
      unfold Shape.programmedKernels
      simp [hkind, hprecision, Precision.elementBits]
    have helements : s.weightChannels * s.programmedKernels ≤ 8 * 4096 :=
      Nat.mul_le_mul hchannels (by omega)
    have hbytes : s.weightBytes (1, 1) ≤ 65536 := by
      unfold Shape.weightBytes Precision.bytesFor
      simp only [hkind, Bool.false_eq_true, if_false, hprecision, Precision.elementBits,
        kernelProgramming_height, kernelProgramming_width]
      rw [wrap32_of_lt (n := s.weightChannels * s.programmedKernels) (by omega),
        wrap32_of_lt (n := _ * 16) (by omega)]
      exact (Nat.mod_le _ _).trans (by omega)
    unfold Shape.weightBankDemand cbufBankBytes
    rw [Nat.ceilDiv_eq_add_pred_div]
    omega
  have hpref := preference_dense_one hkind (by rw [hprecision]; decide) henvelope.channels_le
  have hbanks : s.dataBankDemand ≤ dataBanks := by
    unfold cbufBanks at hgrant
    omega
  refine .inl ?_
  have hwhole : (Tile.whole s (1, 1)).inRows ≤ 1 := by
    rw [← hheight]
    exact (Nat.min_le_right _ _).trans (Nat.sub_le _ _)
  refine hwhole.trans (Nat.le_min.mpr ⟨s.le_rowCapacity henvelope.elementBytes_pos hwidth.1 ?_ ?_, ?_⟩)
  · unfold Shape.rowBytes Shape.bankBytes cbufBankBytes
    simp only [hdense, Nat.one_mul]
    omega
  · rw [Nat.one_mul]
    exact hcharged.trans (by decide)
  · unfold Shape.maxFeatureGrainInputRows
    exact Nat.le_max_right _ _

/-- An admitted matmul is planned. -/
theorem matmul_plans (policy : PlanningPolicy) (h : admitMatmul admission = .ok ())
    (activation : Activation) :
    ∃ plan, ConvPlan.tryNew policy (admission.request activation).shape (1, 1) = .ok plan := by
  have hconstructible := constructible_of_admitMatmul h activation
  have haccepted := admitConv_of_admitMatmul h activation
  have henvelope := envelope_of_admitConv haccepted (admission.request activation).describes
  have hs := ConvRequest.wellFormed policy hconstructible haccepted
  have hk := ConvRequest.kernelFits hconstructible haccepted
  obtain ⟨hprecision, ⟨hm, -, -⟩, hm4096, -, hn4096⟩ := admitMatmul_ok.mp h
  cases hlayout : (admission.request activation).shape.layout with
  | dense =>
    obtain ⟨dataBanks, weightBanks, -, hgrant, ⟨plan, hplan, -⟩ | ⟨-, hunfit⟩⟩ :=
      henvelope.tryNew_dense hs hk hlayout
    · exact ⟨plan, hplan⟩
    · exact absurd (denseRow_fits hprecision rfl hlayout ⟨Nat.pos_of_ne_zero hm, hm4096⟩ rfl hn4096
        henvelope hgrant) hunfit
  | surfaces =>
    have hatoms := henvelope.atoms_le
    have hwidth : (admission.request activation).shape.width ≤ 4096 := hm4096
    have hheight : (admission.request activation).shape.height = 1 := rfl
    have hproduct := Nat.mul_le_mul hwidth hatoms
    refine henvelope.tryNew_surfaces hs hk hlayout ?_ ?_
    · rw [hheight, Nat.mul_one]
      omega
    · unfold Shape.rowBytes cbufAtomsPerEntry featureAtomBytes
      simp only [hlayout]
      rw [Nat.ceilDiv_eq_add_pred_div]
      omega

end Matmul

/-- **What admission promises.** An admitted matmul is always planned, under any activation set on its
shape. For an admitted convolution the shape constructors succeed; a surface layout is then planned
at any extents whose atoms and row bytes stay inside `u32`, and a dense layout, which the planner
never cuts into columns, is planned or refused for the columns it would need. -/
theorem admission_plans (policy : PlanningPolicy) :
    (∀ admission activation, admitMatmul admission = .ok () →
      ∃ shape plan, Fc.Shape.tryNew policy admission.m admission.k admission.n admission.precision =
          .ok shape ∧
        Fc.Plan.tryNew policy { shape with activation } = .ok plan) ∧
    ∀ r : ConvRequest, r.Constructible → admitConv r.admission = .ok () →
      ∃ shape, r.tryShape policy = .ok shape ∧ PlansInEnvelope policy shape r.kernels := by
  refine ⟨fun admission activation h => ?_, fun r h haccepted =>
    ⟨r.shape, ConvRequest.plans policy h haccepted⟩⟩
  have hshape : ∀ activation, Fc.Shape.tryAsConvShape policy
      ⟨admission.m, admission.k, admission.n, admission.precision, activation⟩ =
        .ok (admission.request activation).shape := fun activation => by
    rw [tryAsConvShape_eq]
    exact ConvRequest.tryShape_isOk policy (constructible_of_admitMatmul h activation)
      (admitConv_of_admitMatmul h activation)
  obtain ⟨plan, hplan⟩ := matmul_plans policy h activation
  refine ⟨⟨admission.m, admission.k, admission.n, admission.precision, .none⟩,
    ⟨⟨admission.m, admission.k, admission.n, admission.precision, activation⟩, plan⟩, ?_, ?_⟩
  · unfold Fc.Shape.tryNew
    simp only [bind_ok, hshape]
    exact ⟨_, rfl, rfl⟩
  · unfold Fc.Plan.tryNew
    simp only [bind_ok, hshape]
    exact ⟨_, rfl, plan, hplan, rfl⟩

/-- A 3x3 convolution of a 14x14 image under the planner's own padding. -/
def midRequest : ConvRequest where
  admission :=
    { precision := .fp16, depthwise := false, kernelHeight := 3, kernelWidth := 3, stride := 2
      inChannels := 64, outChannels := 128 }
  width := 14
  height := 14
  padding := none
  activation := .relu

theorem admission_plans_mid :
    (∃ shape plan, Fc.Shape.tryNew .default 7 16 32 .fp16 = .ok shape ∧
      Fc.Plan.tryNew .default { shape with activation := .relu } = .ok plan) ∧
    ∃ shape, midRequest.tryShape .default = .ok shape ∧
      PlansInEnvelope .default shape midRequest.kernels :=
  ⟨(admission_plans .default).1 ⟨.fp16, 7, 16, 32⟩ .relu (by decide +kernel),
    (admission_plans .default).2 midRequest
      ⟨by decide, by decide, by decide, by decide, by decide, by decide⟩ (by decide +kernel)⟩

/-! ### A row no bank split holds

A single row of 20000 three-channel pixels: at eight bytes a pixel it asks for twenty data banks of a
dense layout's 8192 bytes, and the planner cuts no dense image into columns. -/

def rowRequest : ConvRequest where
  admission :=
    { precision := .fp16, depthwise := false, kernelHeight := 1, kernelWidth := 1, stride := 1
      inChannels := 3, outChannels := 8 }
  width := 20000
  height := 1
  padding := none
  activation := .none

theorem row_admitted_not_planned :
    rowRequest.Constructible ∧ admitConv rowRequest.admission = .ok () ∧
      ∃ shape, rowRequest.tryShape .default = .ok shape ∧
        ConvPlan.tryNew .default shape rowRequest.kernels =
          .error (.refused horizontalTilingRefusal) :=
  ⟨⟨by decide, by decide, by decide, by decide, by decide, by decide⟩, by decide +kernel,
    rowRequest.shape, by decide +kernel, by decide +kernel⟩

end IreeRocket
