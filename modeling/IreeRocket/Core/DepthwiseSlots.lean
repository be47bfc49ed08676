import IreeRocket.Core.PackedSlots

/-!
# Where the depthwise packer puts a coefficient

Channels are packed in groups of 64 bytes, and a group tap-major: all its channels at one tap, then at the
next. The last group is as wide as the padded channels the full groups leave. A group of `w` channels
takes `kh * kw * w` slots, so the slots before a group are those of its full predecessors, whatever its
own width; the group of a slot is its quotient by a full group's, and the tap and the channel follow by
the group's own width (`depthwiseSlot_inj`).
-/

namespace IreeRocket.Weights

open Conv Writes

/-- Width of a channel's group. -/
def groupWidth (padded group channel : Nat) : Nat :=
  if channel / group < padded / group then group else padded - padded / group * group

/-- The grouped tap-major slot of a coefficient. -/
def depthwiseSlot (kh kw padded group channel ky kx : Nat) : Nat :=
  channel / group * kh * kw * group + (ky * kw + kx) * groupWidth padded group channel + channel % group

section Slot

variable {kh kw channels padded group elementSize : Nat}

theorem mem_depthwiseSlots {copy : Nat × Nat} :
    copy ∈ depthwiseSlots kh kw channels padded elementSize ↔
      ∃ channel ky kx, channel < channels ∧ ky < kh ∧ kx < kw ∧
        copy = ((channel * kh + ky) * kw + kx,
          depthwiseSlot kh kw padded (depthwiseGroupBytes / elementSize) channel ky kx) := by
  simp only [depthwiseSlots, List.mem_flatMap, List.mem_map, List.mem_range]
  constructor
  · rintro ⟨channel, hchannel, ky, hky, kx, hkx, rfl⟩
    exact ⟨channel, ky, kx, hchannel, hky, hkx, rfl⟩
  · rintro ⟨channel, ky, kx, hchannel, hky, hkx, rfl⟩
    exact ⟨channel, hchannel, ky, hky, kx, hkx, rfl⟩

/-- A channel lies within its group. -/
theorem mod_lt_groupWidth (hgroup : 0 < group) {channel : Nat} (h : channel < padded) :
    channel % group < groupWidth padded group channel := by
  unfold groupWidth
  split_ifs with hfull
  · exact Nat.mod_lt channel hgroup
  · have hle : channel / group ≤ padded / group := Nat.div_le_div_right h.le
    have hlast : channel / group = padded / group := by omega
    have hdiv := Nat.div_add_mod' channel group
    rw [hlast] at hdiv
    omega

theorem groupWidth_le (hgroup : 0 < group) (channel : Nat) : groupWidth padded group channel ≤ group := by
  unfold groupWidth
  split_ifs
  · exact le_rfl
  · have hdiv := Nat.div_add_mod' padded group
    have hmod := Nat.mod_lt padded hgroup
    omega

/-- The channels of a group share its width. -/
theorem groupWidth_congr {channel channel' : Nat} (h : channel / group = channel' / group) :
    groupWidth padded group channel = groupWidth padded group channel' := by
  unfold groupWidth
  rw [h]

/-- **No two coefficients share a slot.** -/
theorem depthwiseSlot_inj (hgroup : 0 < group) {channel channel' ky ky' kx kx' : Nat}
    (hchannel : channel < padded) (hky : ky < kh) (hkx : kx < kw)
    (hchannel' : channel' < padded) (hky' : ky' < kh) (hkx' : kx' < kw)
    (h : depthwiseSlot kh kw padded group channel ky kx =
      depthwiseSlot kh kw padded group channel' ky' kx') :
    channel = channel' ∧ ky = ky' ∧ kx = kx' := by
  -- the rest of a slot stays within a full group's slots
  have hrest : ∀ {channel ky kx : Nat}, channel < padded → ky < kh → kx < kw →
      (ky * kw + kx) * groupWidth padded group channel + channel % group < kh * kw * group := by
    intro channel ky kx hchannel hky hkx
    calc (ky * kw + kx) * groupWidth padded group channel + channel % group
        < kh * kw * groupWidth padded group channel :=
          place_lt (place_lt hky hkx) (mod_lt_groupWidth hgroup hchannel)
      _ ≤ kh * kw * group := Nat.mul_le_mul_left _ (groupWidth_le hgroup channel)
  have hsplit : ∀ channel ky kx, depthwiseSlot kh kw padded group channel ky kx =
      channel / group * (kh * kw * group) +
        ((ky * kw + kx) * groupWidth padded group channel + channel % group) := by
    intro channel ky kx
    unfold depthwiseSlot
    ring
  rw [hsplit, hsplit] at h
  obtain ⟨hdiv, htap⟩ := place_inj (hrest hchannel hky hkx) (hrest hchannel' hky' hkx') h
  rw [groupWidth_congr hdiv] at htap
  have hwidth := mod_lt_groupWidth hgroup hchannel
  rw [groupWidth_congr hdiv] at hwidth
  obtain ⟨htaps, hmod⟩ := place_inj hwidth (mod_lt_groupWidth hgroup hchannel') htap
  obtain ⟨hrow, hcolumn⟩ := place_inj hkx hkx' htaps
  refine ⟨?_, hrow, hcolumn⟩
  rw [← Nat.div_add_mod' channel group, ← Nat.div_add_mod' channel' group, hdiv, hmod]

end Slot

/-! ### The packed bytes -/

/-- A depthwise filter packed exactly: every coefficient in a slot of its own, zero everywhere else up to
the padded size, nothing changed beyond it. -/
structure DepthwiseExact (kh kw channels padded elementSize : Nat) (dense packed : Bytes)
    (result : Nat × Bytes) : Prop where
  size : result.1 = kh * kw * padded * elementSize
  length : result.1 ≤ packed.length ∧ result.2.length = packed.length
  slot_lt : ∀ channel < channels, ∀ ky < kh, ∀ kx < kw,
    depthwiseSlot kh kw padded (depthwiseGroupBytes / elementSize) channel ky kx < kh * kw * padded
  slot_inj : ∀ channel < channels, ∀ ky < kh, ∀ kx < kw,
    ∀ channel' < channels, ∀ ky' < kh, ∀ kx' < kw,
      depthwiseSlot kh kw padded (depthwiseGroupBytes / elementSize) channel ky kx =
        depthwiseSlot kh kw padded (depthwiseGroupBytes / elementSize) channel' ky' kx' →
      channel = channel' ∧ ky = ky' ∧ kx = kx'
  source_lt : ∀ channel < channels, ∀ ky < kh, ∀ kx < kw,
    ((channel * kh + ky) * kw + kx) * elementSize + elementSize ≤ dense.length
  coefficient : ∀ channel < channels, ∀ ky < kh, ∀ kx < kw, ∀ lane < elementSize,
    result.2[depthwiseSlot kh kw padded (depthwiseGroupBytes / elementSize) channel ky kx *
        elementSize + lane]? =
      dense[((channel * kh + ky) * kw + kx) * elementSize + lane]?
  zero : ∀ k < result.1,
    (∀ channel < channels, ∀ ky < kh, ∀ kx < kw,
      k / elementSize ≠ depthwiseSlot kh kw padded (depthwiseGroupBytes / elementSize) channel ky kx) →
    result.2[k]? = some 0
  beyond : result.2.drop result.1 = packed.drop result.1

section Packed

variable {dense packed : Bytes} {kh kw channels padded elementSize packedLen : Nat}

theorem copyTap_hit {copy : Nat × Nat} {out : Bytes} {k : Nat} (helement : 0 < elementSize)
    (hread : copy.1 * elementSize + elementSize ≤ dense.length)
    (hwrite : copy.2 * elementSize + elementSize ≤ out.length) (hk : k / elementSize = copy.2) :
    (copyTap dense elementSize out copy)[k]? = dense[copy.1 * elementSize + k % elementSize]? := by
  have hload := length_load hread
  have hplace := Nat.div_add_mod' k elementSize
  have hlane := Nat.mod_lt k helement
  rw [hk] at hplace
  unfold copyTap
  rw [getElem?_store_mem (by omega) (by omega) (by omega), getElem?_load (by omega)]
  congr 1
  omega

theorem copyTap_miss {copy : Nat × Nat} {out : Bytes} {k : Nat} (helement : 0 < elementSize)
    (hread : copy.1 * elementSize + elementSize ≤ dense.length) (hk : k / elementSize ≠ copy.2) :
    (copyTap dense elementSize out copy)[k]? = out[k]? := by
  have hplace := Nat.div_add_mod' k elementSize
  have hlane := Nat.mod_lt k helement
  unfold copyTap
  apply getElem?_store_not_mem
  rw [length_load hread]
  by_contra hin
  obtain ⟨lane, rfl⟩ := Nat.exists_eq_add_of_le (show copy.2 * elementSize ≤ k by omega)
  exact hk (place_div (by omega))

/-- What an accepted depthwise filter leaves. -/
theorem packDepthwise_exact {result : Nat × Bytes}
    (h : packDepthwiseToRocketWeights dense kh kw channels padded elementSize packed = .ok result) :
    DepthwiseExact kh kw channels padded elementSize dense packed result := by
  obtain ⟨length, out⟩ := result
  obtain ⟨hsize, hle, fresh, hfresh, hpack⟩ := packDepthwise_frame h
  have hout := length_packDepthwise h
  have hbeyond : out.drop length = packed.drop length := by
    have hsame := congrArg Prod.snd (Except.ok.inj (h.symm.trans (hpack packed hle)))
    dsimp only at hsame
    rw [hsame]
    exact List.drop_left' hfresh
  unfold packDepthwiseToRocketWeights at h
  simp only [bind_ok, unlessErr_ok, okOr_ok, pure_ok, exists_const, Prod.mk.injEq] at h
  obtain ⟨⟨-, -, -, hchannels, helement⟩, denseLen, hdense, hread, packedLen, hsize', -, rfl, rfl⟩ := h
  have hfit := copies_fit hchannels helement hdense hread hsize
  have hpos : 0 < elementSize := by
    rcases List.mem_cons.mp helement with rfl | htwo
    · exact Nat.one_pos
    · rw [List.mem_singleton.mp htwo]
      exact Nat.two_pos
  have hgroup : 0 < depthwiseGroupBytes / elementSize := by
    simp only [List.mem_cons, List.not_mem_nil, or_false] at helement
    rcases helement with rfl | rfl <;> decide
  have hcopy : ∀ channel < channels, ∀ ky < kh, ∀ kx < kw,
      ((channel * kh + ky) * kw + kx,
        depthwiseSlot kh kw padded (depthwiseGroupBytes / elementSize) channel ky kx) ∈
          depthwiseSlots kh kw channels padded elementSize :=
    fun channel hc ky hky kx hkx => mem_depthwiseSlots.mpr ⟨channel, ky, kx, hc, hky, hkx, rfl⟩
  have hinj : ∀ channel < channels, ∀ ky < kh, ∀ kx < kw,
      ∀ channel' < channels, ∀ ky' < kh, ∀ kx' < kw,
        depthwiseSlot kh kw padded (depthwiseGroupBytes / elementSize) channel ky kx =
          depthwiseSlot kh kw padded (depthwiseGroupBytes / elementSize) channel' ky' kx' →
        channel = channel' ∧ ky = ky' ∧ kx = kx' :=
    fun channel hc ky hky kx hkx channel' hc' ky' hky' kx' hkx' heq =>
      depthwiseSlot_inj hgroup (hc.trans_le hchannels) hky hkx (hc'.trans_le hchannels) hky' hkx' heq
  -- the byte a slot ends with is its one coefficient's
  have hunique : ∀ copy ∈ depthwiseSlots kh kw channels padded elementSize,
      ∀ copy' ∈ depthwiseSlots kh kw channels padded elementSize, copy.2 = copy'.2 → copy = copy' := by
    intro copy hmem copy' hmem' heq
    obtain ⟨channel, ky, kx, hc, hky, hkx, rfl⟩ := mem_depthwiseSlots.mp hmem
    obtain ⟨channel', ky', kx', hc', hky', hkx', rfl⟩ := mem_depthwiseSlots.mp hmem'
    obtain ⟨rfl, rfl, rfl⟩ := hinj channel hc ky hky kx hkx channel' hc' ky' hky' kx' hkx' heq
    rfl
  have hfind : ∀ copy ∈ depthwiseSlots kh kw channels padded elementSize,
      (depthwiseSlots kh kw channels padded elementSize).find? (fun other => other.2 == copy.2) =
        some copy := by
    intro copy hmem
    cases hfound : (depthwiseSlots kh kw channels padded elementSize).find?
        fun other => other.2 == copy.2 with
    | none => exact absurd (List.find?_eq_none.mp hfound copy hmem) (by simp)
    | some other =>
      have hsame := List.find?_some hfound
      replace hsame : other.2 = copy.2 := beq_iff_eq.mp hsame
      rw [hunique other (List.mem_of_find?_eq_some hfound) copy hmem hsame]
  have htoward : Toward (fun bytes : Bytes => bytes.length = packed.length) (fun bytes k => bytes[k]?)
      (copyTap dense elementSize) (fun copy k => k / elementSize = copy.2)
      (fun k => ((depthwiseSlots kh kw channels padded elementSize).find?
        fun other => other.2 == k / elementSize).bind fun copy =>
          dense[copy.1 * elementSize + k % elementSize]?)
      (depthwiseSlots kh kw channels padded elementSize) := by
    constructor
    · intro copy _ bytes hbytes
      rw [length_copyTap, hbytes]
    · intro copy hmem bytes hbytes k hk
      rw [hk, hfind copy hmem, Option.bind_some]
      exact copyTap_hit hpos (hfit copy hmem).1 ((hfit copy hmem).2.trans (hle.trans hbytes.ge)) hk
    · intro copy hmem bytes _ k hk
      exact copyTap_miss hpos (hfit copy hmem).1 hk
  have hpacked := checkedProduct_some hsize
  simp only [List.prod_cons, List.prod_nil, Nat.mul_one] at hpacked
  exact {
    size := by
      rw [hpacked]
      ring
    length := ⟨hle, hout⟩
    slot_lt := fun channel hc ky hky kx hkx =>
      (depthwiseSlots_lt hchannels helement (hcopy channel hc ky hky kx hkx)).2
    slot_inj := hinj
    source_lt := fun channel hc ky hky kx hkx => (hfit _ (hcopy channel hc ky hky kx hkx)).1
    coefficient := by
      intro channel hc ky hky kx hkx lane hlane
      have hmem := hcopy channel hc ky hky kx hkx
      have hhit := htoward.foldl_hit (s := zeroed packed packedLen) (length_zeroed hle)
        ⟨_, hmem, place_div hlane⟩
      rw [place_div hlane, place_mod hlane, hfind _ hmem, Option.bind_some] at hhit
      exact hhit
    zero := by
      intro k hk hnone
      have hmiss := htoward.foldl_miss (s := zeroed packed packedLen) (k := k) (length_zeroed hle) (by
        intro copy hmem hslot
        obtain ⟨channel, ky, kx, hc, hky, hkx, rfl⟩ := mem_depthwiseSlots.mp hmem
        exact hnone channel hc ky hky kx hkx hslot)
      exact hmiss.trans (getElem?_zeroed hk)
    beyond := hbeyond }

/-- **Depthwise packing is exact**, over any padded channel count and, for a plan, over the count its shape
pads to. -/
theorem depthwise_packing_exact (dense packed : Bytes) (result : Nat × Bytes) :
    (∀ kh kw channels padded elementSize,
      packDepthwiseToRocketWeights dense kh kw channels padded elementSize packed = .ok result →
        DepthwiseExact kh kw channels padded elementSize dense packed result) ∧
      ∀ plan : WeightPlan, plan.shape.depthwise = true → plan.pack dense packed = .ok result →
        ∃ elementBytes, plan.elementBytes = .ok elementBytes ∧
          DepthwiseExact plan.kernels.1 plan.kernels.2 plan.shape.inChannels
            plan.shape.depthwisePaddedChannels elementBytes dense packed result := by
  refine ⟨fun _ _ _ _ _ h => packDepthwise_exact h, fun plan hdepthwise h => ?_⟩
  obtain ⟨-, elementBytes, -, -, -, helement, hselect⟩ := WeightPlan.pack_ok.mp h
  rw [WeightPlan.select, if_pos hdepthwise] at hselect
  exact ⟨elementBytes, helement, packDepthwise_exact hselect⟩

/-- Seventy int8 channels padded to eighty: the last group is sixteen wide. -/
theorem depthwise_packing_exact_tail :
    DepthwiseExact 1 1 70 80 1 (List.replicate 70 1) (List.replicate 80 7)
      (80, List.replicate 70 1 ++ List.replicate 10 0) :=
  (depthwise_packing_exact _ _ _).1 1 1 70 80 1 (by decide +kernel)

end Packed

end IreeRocket.Weights
