import IreeRocket.Core.AdmissionSound

/-!
# No plan starves its coefficients

Coefficients are streamed, so a plan may grant them fewer banks than they fill, but not fewer than
the group the CNA streams at a time: below that it hangs, or reads back zeros. Five rules pick the
split (the demands, the starved single bank, the raise to the floor, the image kept whole, the
captured tables raised to the preference), and each of them keeps it at or above
`requiredWeightBanks`. The floor of a captured table is that of a channel count the table's ceiling
lets through.
-/

namespace IreeRocket.Conv

/-- The coefficient banks a split may not go below: those the coefficients fill, or those they are
streamed through. -/
def requiredWeightBanks (s : Shape) (kernels : Kernels) : Nat :=
  min (s.weightBankDemand kernels)
    (max (weightBanksFloor s.weightChannels) (min (preference s kernels) (cbufBanks - 1)))

/-- A split of the twelve banks that leaves neither side without one nor the coefficients starved. -/
structure LegalSplit (s : Shape) (kernels : Kernels) (banks : Nat × Nat) : Prop where
  sum : banks.1 + banks.2 = cbufBanks
  data_pos : 1 ≤ banks.1
  weights_pos : 1 ≤ banks.2
  unstarved : requiredWeightBanks s kernels ≤ banks.2

section Splits

variable {s : Shape} {kernels : Kernels} {banks : Nat × Nat}

/-! ### The floor -/

theorem weightBanksFloor_le (channels : Nat) : weightBanksFloor channels ≤ 5 := by
  unfold weightBanksFloor
  split_ifs <;> omega

theorem le_weightBanksFloor (channels : Nat) : 3 ≤ weightBanksFloor channels := by
  unfold weightBanksFloor
  split_ifs <;> omega

/-- Two hundred and fifty-six channels are a whole number of quads of atoms at every precision. -/
theorem weightChannels_le_of_inChannels (h : s.inChannels ≤ 256) : s.weightChannels ≤ 256 := by
  have hatoms : 256 / s.precision.channelsPerAtom * s.precision.channelsPerAtom = 256 ∧
      0 < 256 / s.precision.channelsPerAtom ∧ 256 / s.precision.channelsPerAtom % 4 = 0 := by
    rcases s.precision.channelsPerAtom_cases with hc | hc | hc | hc <;> rw [hc] <;> decide
  obtain ⟨hwhole, hpos, hquad⟩ := hatoms
  have hcbuf : s.cbufAtoms ≤ 256 / s.precision.channelsPerAtom :=
    cbufAtoms_le hpos hquad (by rw [hwhole]; exact h)
  calc s.weightChannels
      ≤ s.cbufAtoms * s.precision.channelsPerAtom := weightChannels_le s
    _ ≤ 256 / s.precision.channelsPerAtom * s.precision.channelsPerAtom :=
        Nat.mul_le_mul_right _ hcbuf
    _ = 256 := hwhole

/-! ### The demand-based split -/

/-- A split raised to the floor. -/
theorem legalSplit_of_floor (hpref : preference s kernels < cbufBanks) :
    LegalSplit s kernels
      (cbufBanks - min (max (weightBanksFloor s.weightChannels) (preference s kernels)) (cbufBanks - 1),
        min (max (weightBanksFloor s.weightChannels) (preference s kernels)) (cbufBanks - 1)) := by
  have hle := weightBanksFloor_le s.weightChannels
  have hge := le_weightBanksFloor s.weightChannels
  have hbanks : cbufBanks = 12 := rfl
  constructor
  · dsimp only
    omega
  · dsimp only
    omega
  · dsimp only
    omega
  · unfold requiredWeightBanks
    dsimp only
    omega

/-- A split that grants the demand or the floor. -/
theorem legalSplit_of_granted {data : Nat} (hpos : 1 ≤ data) (hle : data ≤ cbufBanks - 1)
    (h : s.weightBankDemand kernels ≤ cbufBanks - data ∨
      max (weightBanksFloor s.weightChannels) (preference s kernels) ≤ cbufBanks - data) :
    LegalSplit s kernels (data, cbufBanks - data) := by
  have hbanks : cbufBanks = 12 := rfl
  refine ⟨?_, hpos, ?_, ?_⟩
  · dsimp only
    omega
  · dsimp only
    omega
  · unfold requiredWeightBanks
    dsimp only
    omega

theorem demandGrant_mem (s : Shape) (kernels : Kernels) :
    1 ≤ s.demandGrant kernels ∧ s.demandGrant kernels ≤ cbufBanks - 1 := by
  unfold Shape.demandGrant cbufBanks
  simp only
  omega

theorem tryDemandBasedCbufPartition_legal (h : s.tryDemandBasedCbufPartition kernels = .ok banks) :
    LegalSplit s kernels banks := by
  obtain ⟨hpos, hle⟩ := demandGrant_mem s kernels
  unfold Shape.tryDemandBasedCbufPartition at h
  simp only [bind_ok, refuseUnless_ok, exists_const] at h
  obtain ⟨hpref, h⟩ := h
  split_ifs at h with hstarved hraised
  · obtain rfl := pure_ok.mp h
    exact legalSplit_of_floor hpref
  · obtain rfl := pure_ok.mp h
    exact legalSplit_of_floor hpref
  · simp only [bind_ok] at h
    obtain ⟨baseline, -, wholeData, -, h⟩ := h
    split_ifs at h with hwhole
    · obtain rfl := pure_ok.mp h
      -- The image is kept whole only by a grant at or above the floor.
      have hdata : 1 ≤ s.dataBankDemand := le_max_right _ _
      refine legalSplit_of_granted ?_ (Nat.min_le_right _ _) (.inr hwhole.2.1)
      unfold cbufBanks
      omega
    · obtain rfl := pure_ok.mp h
      refine legalSplit_of_granted hpos hle ?_
      rcases Nat.lt_or_ge (cbufBanks - s.demandGrant kernels)
        (max (weightBanksFloor s.weightChannels) (preference s kernels)) with hbelow | hfloor
      · exact .inl (Nat.le_of_not_lt fun hwants => hraised ⟨hbelow, hwants⟩)
      · exact .inr hfloor

/-! ### The captured splits -/

/-- A captured split of a channel count at the lowest floor. -/
theorem unstarvedLargeKernelPartition_legal {captured : Nat × Nat} (hchannels : s.inChannels ≤ 256)
    (hcaptured : 3 ≤ captured.2) :
    LegalSplit s kernels (unstarvedLargeKernelPartition s kernels captured) := by
  have hfloor : weightBanksFloor s.weightChannels = 3 :=
    if_pos (weightChannels_le_of_inChannels hchannels)
  have hbanks : (unstarvedLargeKernelPartition s kernels captured).2 =
      min (max captured.2 (preference s kernels)) (cbufBanks - 1) := rfl
  have hdata : (unstarvedLargeKernelPartition s kernels captured).1 =
      cbufBanks - (unstarvedLargeKernelPartition s kernels captured).2 := rfl
  rw [hbanks] at hdata
  unfold cbufBanks at hbanks hdata
  constructor
  · unfold cbufBanks
    omega
  · omega
  · omega
  · unfold requiredWeightBanks cbufBanks
    rw [hfloor]
    omega

/-- What the check of a large kernel leaves, with its probing off. -/
theorem checkLargeKernelPlanCase_channels {policy : PlanningPolicy} {kernel : Nat} {neutral : Bool}
    {u : Unit} (hpolicy : policy.allowLargeKernelProbing = false)
    (h : checkLargeKernelPlanCase policy s kernel neutral = .ok u) :
    s.inChannels ≤ largeKernelMaxInChannels s.precision kernel := by
  unfold checkLargeKernelPlanCase at h
  simp only [hpolicy, Bool.false_eq_true, if_false, bind_ok, refuseUnless_ok, exists_const] at h
  exact h.2.2

theorem largeKernelMaxInChannels_le (precision : Precision) {kernel : Nat} (h : 5 < kernel) :
    largeKernelMaxInChannels precision kernel ≤ 256 := by
  unfold largeKernelMaxInChannels
  rw [if_neg (by omega)]
  split_ifs
  · omega
  · omega
  · cases precision <;> simp

theorem checkLargeKernelPlanCase_le {policy : PlanningPolicy} {kernel : Nat} {neutral : Bool}
    {u : Unit} (hpolicy : policy.allowLargeKernelProbing = false) (hkernel : 5 < kernel)
    (h : checkLargeKernelPlanCase policy s kernel neutral = .ok u) : s.inChannels ≤ 256 :=
  (checkLargeKernelPlanCase_channels hpolicy h).trans (largeKernelMaxInChannels_le _ hkernel)

/-! ### Every split the planner picks -/

theorem squarePartition_legal {policy : PlanningPolicy}
    (hpolicy : policy.allowLargeKernelProbing = false)
    (h : ConvPlan.squarePartition policy s kernels = .ok banks) : LegalSplit s kernels banks := by
  unfold ConvPlan.squarePartition at h
  split at h
  · exact tryDemandBasedCbufPartition_legal h
  · exact tryDemandBasedCbufPartition_legal h
  iterate 5 exact tryDemandBasedCbufPartition_legal (evenSquareCbufPartition_ok.mp h).2.2
  · simp only [bind_ok] at h
    obtain ⟨-, -, h⟩ := h
    exact tryDemandBasedCbufPartition_legal h
  · simp only [bind_ok] at h
    obtain ⟨u, hcheck, h⟩ := h
    split_ifs at h
    · exact tryDemandBasedCbufPartition_legal h
    · obtain rfl := pure_ok.mp h
      apply unstarvedLargeKernelPartition_legal
      · exact checkLargeKernelPlanCase_le hpolicy (by omega) hcheck
      · decide
  · simp only [bind_ok, pure_ok] at h
    obtain ⟨u, hcheck, rfl⟩ := h
    apply unstarvedLargeKernelPartition_legal
    · exact checkLargeKernelPlanCase_le hpolicy (by omega) hcheck
    · split_ifs <;> decide
  · simp only [bind_ok, pure_ok] at h
    obtain ⟨u, hcheck, rfl⟩ := h
    apply unstarvedLargeKernelPartition_legal
    · exact checkLargeKernelPlanCase_le hpolicy (by omega) hcheck
    · split_ifs <;> decide
  · cases h

theorem cbufPartition_legal {policy : PlanningPolicy}
    (hpolicy : policy.allowLargeKernelProbing = false)
    (h : ConvPlan.cbufPartition policy s kernels = .ok banks) : LegalSplit s kernels banks := by
  unfold ConvPlan.cbufPartition at h
  split_ifs at h
  · exact tryDemandBasedCbufPartition_legal (nonSquareCbufPartition_ok.mp h).2.2.2
  · exact squarePartition_legal hpolicy h

end Splits

/-- **The bank split of a plan is legal and starves no coefficients.** Whatever the kernel, the
stride, the channels and the precision; the probing policy only lifts the ceilings that the captured
tables' floor rests on. -/
theorem plan_split_legal {policy : PlanningPolicy} {shape : Shape} {kernels : Kernels}
    {plan : ConvPlan} (hpolicy : policy.allowLargeKernelProbing = false)
    (h : ConvPlan.tryNew policy shape kernels = .ok plan) :
    LegalSplit shape kernels (plan.dataBanks, plan.weightBanks) := by
  obtain ⟨kernel, u, bytes, banks, -, -, -, hbanks, hplan⟩ := tryNew_ok.mp h
  obtain ⟨-, -, hdata, hweights, -⟩ := newWithCbufPartition_grid hplan
  rw [hdata, hweights]
  exact cbufPartition_legal hpolicy hbanks

theorem stem_split_legal : LegalSplit stemShape (3, 3) (11, 1) :=
  plan_split_legal rfl stem_planned

end IreeRocket.Conv
