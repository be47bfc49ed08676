import IreeRocket.Core.Int4Weights
import IreeRocket.Core.SlotOrder
import IreeRocket.Lib.Writes

/-!
# What the dense packers leave in each slot

The packers share one walk and differ in what they store. Each writes toward a byte (or a nibble) that
its slot determines, so after all visits every slot holds its coefficient, or the filler of its lane.
-/

namespace IreeRocket.Weights

open Conv Nest Writes

theorem getElem?_zeroed {packed : Bytes} {length k : Nat} (hk : k < length) :
    (zeroed packed length)[k]? = some 0 := by
  unfold zeroed
  rw [List.getElem?_append_left (by rwa [List.length_replicate]), List.getElem?_replicate, if_pos hk]

/-! ### Bytes -/

/-- Byte `lane` of a packed slot. -/
def slotByte (dense : Bytes) (outputChannels elementSize : Nat) (zeroPoints : Option (List Int8))
    (slot : Option Nat × Nat) (lane : Nat) : Option UInt8 :=
  match slot.1 with
  | some source => dense[source * elementSize + lane]?
  | none =>
    match zeroPoints with
    | some zeroPoints =>
      if slot.2 < outputChannels ∧ lane = 0 then some (zeroPoints.getD slot.2 0).toUInt8 else some 0
    | none => some 0

/-- The visit stores a byte at `k`. -/
def Stores (outputChannels elementSize : Nat) (zeroPoints : Option (List Int8))
    (visit : (Option Nat × Nat) × Nat) (k : Nat) : Prop :=
  k / elementSize = visit.2 ∧
    (visit.1.1.isSome ∨ (zeroPoints.isSome ∧ visit.1.2 < outputChannels ∧ k % elementSize = 0))

section Bytes

variable {dense : Bytes} {outputChannels elementSize packedLen length : Nat}
  {zeroPoints : Option (List Int8)} {slots : List (Option Nat × Nat)}

theorem storeSlot_hit {visit : (Option Nat × Nat) × Nat} {packed : Bytes} {k : Nat}
    (hfits : SlotFits elementSize dense.length packedLen visit) (hpacked : packedLen ≤ packed.length)
    (hk : Stores outputChannels elementSize zeroPoints visit k) :
    (storeSlot dense outputChannels elementSize zeroPoints packed visit)[k]? =
      slotByte dense outputChannels elementSize zeroPoints visit.1 (k % elementSize) := by
  obtain ⟨⟨source, channel⟩, slot⟩ := visit
  obtain ⟨hsource, hslot, hpos⟩ := hfits
  obtain ⟨hindex, hstores⟩ := hk
  dsimp only at hindex hslot hstores
  have hk_eq : slot * elementSize + k % elementSize = k := by
    rw [← hindex]
    exact Nat.div_add_mod' _ _
  have hlane := Nat.mod_lt k hpos
  cases source with
  | some source =>
    have hload := length_load (hsource source rfl)
    show (store packed (slot * elementSize) (load dense (source * elementSize) elementSize))[k]? =
      dense[source * elementSize + k % elementSize]?
    rw [getElem?_store_mem (by omega) (by omega) (by omega), getElem?_load (by omega)]
    congr 1
    omega
  | none =>
    obtain ⟨hzero, hchannel, hfirst⟩ := hstores.resolve_left (by simp)
    obtain ⟨zs, rfl⟩ := Option.isSome_iff_exists.mp hzero
    simp only [storeSlot, slotByte, if_pos hchannel, hfirst, and_true]
    have hk_first : slot * elementSize = k := by omega
    rw [hk_first]
    exact List.getElem?_set_self (by omega)

theorem storeSlot_miss {visit : (Option Nat × Nat) × Nat} {packed : Bytes} {k : Nat}
    (hfits : SlotFits elementSize dense.length packedLen visit)
    (hk : ¬ Stores outputChannels elementSize zeroPoints visit k) :
    (storeSlot dense outputChannels elementSize zeroPoints packed visit)[k]? = packed[k]? := by
  obtain ⟨⟨source, channel⟩, slot⟩ := visit
  obtain ⟨hsource, -, hpos⟩ := hfits
  have hk_eq : k / elementSize * elementSize + k % elementSize = k := Nat.div_add_mod' _ _
  have hlane := Nat.mod_lt k hpos
  cases source with
  | some source =>
    have hload := length_load (hsource source rfl)
    have hother : k / elementSize ≠ slot := fun hindex => hk ⟨hindex, .inl rfl⟩
    apply getElem?_store_not_mem
    rw [hload]
    by_contra hin
    obtain ⟨lane, rfl⟩ := Nat.exists_eq_add_of_le (show slot * elementSize ≤ k by omega)
    exact hother (place_div (by omega))
  | none =>
    cases zeroPoints with
    | none => rfl
    | some zs =>
      simp only [storeSlot]
      split_ifs with hchannel
      · apply List.getElem?_set_ne
        rintro rfl
        exact hk ⟨Nat.mul_div_cancel _ hpos, .inr ⟨rfl, hchannel, Nat.mul_mod_left _ _⟩⟩
      · rfl

/-- **After all visits every slot holds its byte.** -/
theorem storeSlots_content
    (hfits : ∀ visit ∈ slots.zipIdx, SlotFits elementSize dense.length packedLen visit)
    {packed : Bytes} (hpacked : packedLen ≤ packed.length) (hzero : ∀ k < packedLen, packed[k]? = some 0)
    {s lane : Nat} {slot : Option Nat × Nat} (hslot : slots[s]? = some slot) (hlane : lane < elementSize) :
    (slots.zipIdx.foldl (storeSlot dense outputChannels elementSize zeroPoints) packed)[
        s * elementSize + lane]? =
      slotByte dense outputChannels elementSize zeroPoints slot lane := by
  have htoward : Toward (fun out : Bytes => out.length = packed.length) (fun out k => out[k]?)
      (storeSlot dense outputChannels elementSize zeroPoints)
      (Stores outputChannels elementSize zeroPoints)
      (fun k => slots[k / elementSize]?.bind fun slot =>
        slotByte dense outputChannels elementSize zeroPoints slot (k % elementSize))
      slots.zipIdx := by
    constructor
    · intro visit _ out hout
      rw [length_storeSlot, hout]
    · intro visit hvisit out hout k hk
      have hfound : slots[visit.2]? = some visit.1 := List.mem_zipIdx_iff_getElem?.mp hvisit
      rw [storeSlot_hit (hfits visit hvisit) (hpacked.trans hout.ge) hk, hk.1, hfound, Option.bind_some]
    · intro visit hvisit out _ k hk
      exact storeSlot_miss (hfits visit hvisit) hk
  have hvisit : (slot, s) ∈ slots.zipIdx := List.mem_zipIdx_iff_getElem?.mpr hslot
  have hdiv : (s * elementSize + lane) / elementSize = s := place_div hlane
  have hmod : (s * elementSize + lane) % elementSize = lane := place_mod hlane
  by_cases hstores : Stores outputChannels elementSize zeroPoints (slot, s) (s * elementSize + lane)
  · rw [htoward.foldl_hit rfl ⟨_, hvisit, hstores⟩, hdiv, hmod, hslot, Option.bind_some]
  · have hnone : ∀ visit ∈ slots.zipIdx,
        ¬ Stores outputChannels elementSize zeroPoints visit (s * elementSize + lane) := by
      intro visit hother hk
      have hsame : visit.2 = s := hk.1.symm.trans hdiv
      have hfound : slots[visit.2]? = some visit.1 := List.mem_zipIdx_iff_getElem?.mp hother
      rw [hsame, hslot] at hfound
      obtain rfl := Option.some.inj hfound
      exact hstores ⟨hdiv, hk.2⟩
    have hin : s * elementSize + lane < packedLen := by
      have hend : s * elementSize + elementSize ≤ packedLen := (hfits _ hvisit).slot
      omega
    rw [htoward.foldl_miss rfl hnone, hzero _ hin]
    unfold Stores at hstores
    unfold slotByte
    rw [hdiv, hmod] at hstores
    cases hsource : slot.1 with
    | some source => exact absurd ⟨rfl, .inl (by rw [hsource]; rfl)⟩ hstores
    | none =>
      cases zeroPoints with
      | none => rfl
      | some zs =>
        have hfiller : ¬ (slot.2 < outputChannels ∧ lane = 0) :=
          fun hlogical => hstores ⟨rfl, .inr ⟨rfl, hlogical⟩⟩
        exact (if_neg hfiller).symm

/-- The slots of a filter are the bytes of its packed size. -/
theorem slots_whole {kh kw cin cout padded : Nat} {layout : WeightLayout}
    (hsize : rocketWeightStorageSize kh kw cin padded elementSize = .ok packedLen)
    (hlayout : WeightLayout.new cin padded (elementSize * 8) = .ok layout) :
    (layout.slots kh kw cin cout).length * elementSize = packedLen := by
  unfold rocketWeightStorageSize rocketWeightStorageSizeBits at hsize
  simp only [bind_ok, unlessErr_ok, okOr_ok, pure_ok, exists_const, hlayout, Except.ok.injEq,
    exists_eq_left'] at hsize
  obtain ⟨-, -, bits, hbits, rfl⟩ := hsize
  have htotal := checkedProduct_some hbits
  simp only [List.prod_cons, List.prod_nil, Nat.mul_one] at htotal
  have hbytes : bits = kh * kw * layout.paddedInputChannels * layout.programmedOutputChannels *
      elementSize * 8 := by
    rw [htotal]
    ring
  rw [WeightLayout.length_slots_eq hlayout, hbytes, Nat.mul_div_cancel _ (by decide)]

end Bytes

/-! ### Nibbles -/

/-- The nibble of a packed int4 slot. -/
def slotNibble (dense : List Int8) (slot : Option Nat × Nat) : Option UInt8 :=
  match slot.1 with
  | some source => dense[source]?.map fun value => value.toUInt8 &&& 0xf
  | none => some 0

/-- What a visit of the int4 packer reads and writes is in range. -/
structure NibbleFits (denseLen packedLen : Nat) (visit : (Option Nat × Nat) × Nat) : Prop where
  source : ∀ source, visit.1.1 = some source → source < denseLen
  slot : visit.2 / 2 < packedLen

theorem length_storeInt4Slot (dense : List Int8) (packed : Bytes) (visit : (Option Nat × Nat) × Nat) :
    (storeInt4Slot dense packed visit).length = packed.length := by
  unfold storeInt4Slot
  split
  · rfl
  · exact length_storeNibble _ _ _

theorem mergeSlot_run {dense : List Int8} {packed : Bytes} {packedLen : Nat}
    {visit : (Option Nat × Nat) × Nat} (hfits : NibbleFits dense.length packedLen visit)
    (hpacked : packedLen ≤ packed.length) :
    mergeSlot dense visit packed = (.ok (), storeInt4Slot dense packed visit) := by
  unfold mergeSlot storeInt4Slot
  cases hsource : visit.1.1 with
  | none => rfl
  | some source => exact if_pos ⟨hfits.source source hsource, hfits.slot.trans_le hpacked⟩

section Nibbles

variable {dense : List Int8} {packed : Bytes} {kh kw cin cout padded denseLen packedLen : Nat}
  {layout : WeightLayout}

/-- The nibbles of a filter are whole bytes. -/
theorem nibbles_whole (hlayout : WeightLayout.new cin padded 4 = .ok layout)
    (hsize : rocketWeightStorageSizeBits kh kw cin padded 4 = .ok packedLen) :
    (layout.slots kh kw cin cout).length = packedLen * 2 := by
  obtain ⟨-, -, -, -, -, -, -, hdvd⟩ := WeightLayout.new_ok hlayout
  unfold rocketWeightStorageSizeBits at hsize
  simp only [bind_ok, unlessErr_ok, okOr_ok, pure_ok, exists_const, hlayout, Except.ok.injEq,
    exists_eq_left'] at hsize
  obtain ⟨-, bits, hbits, rfl⟩ := hsize
  have htotal := checkedProduct_some hbits
  simp only [List.prod_cons, List.prod_nil, Nat.mul_one] at htotal
  rw [WeightLayout.length_slots_eq hlayout]
  obtain ⟨quarter, hquarter⟩ := hdvd
  have heven : layout.paddedInputChannels = 2 * quarter := by omega
  rw [htotal, heven]
  have hbytes : kh * (kw * (2 * quarter * (layout.programmedOutputChannels * 4))) =
      kh * kw * quarter * layout.programmedOutputChannels * 8 := by ring
  rw [hbytes, Nat.mul_div_cancel _ (by decide)]
  ring

theorem nibbles_fit (hdense : checkedProduct kh [kw, cin, cout] = some denseLen)
    (hread : denseLen ≤ dense.length) (hlayout : WeightLayout.new cin padded 4 = .ok layout)
    (hsize : rocketWeightStorageSizeBits kh kw cin padded 4 = .ok packedLen) :
    ∀ visit ∈ (layout.slots kh kw cin cout).zipIdx, NibbleFits dense.length packedLen visit := by
  rintro ⟨slot, index⟩ hmem
  have hslot := List.mem_zipIdx_iff_getElem?.mp hmem
  have hindex : index < (layout.slots kh kw cin cout).length :=
    (List.getElem?_eq_some_iff.mp hslot).1
  rw [nibbles_whole hlayout hsize] at hindex
  refine ⟨fun source hsource => ?_, by dsimp only; omega⟩
  have hlt := layout.source_lt (List.mem_of_getElem? hslot) hsource
  have htotal := checkedProduct_some hdense
  simp only [List.prod_cons, List.prod_nil, Nat.mul_one] at htotal
  calc source < kh * kw * cin * cout := hlt
    _ = denseLen := by rw [htotal]; ring
    _ ≤ dense.length := hread

/-- **After all visits every slot holds its nibble.** -/
theorem storeInt4Slots_content {slots : List (Option Nat × Nat)}
    (hfits : ∀ visit ∈ slots.zipIdx, NibbleFits dense.length packedLen visit)
    (hpacked : packedLen ≤ packed.length) (hzero : ∀ k < packedLen, packed[k]? = some 0) {s : Nat}
    {slot : Option Nat × Nat} (hslot : slots[s]? = some slot) :
    nibbleAt (slots.zipIdx.foldl (storeInt4Slot dense) packed) s = slotNibble dense slot := by
  have htoward : Toward (fun out : Bytes => out.length = packed.length) nibbleAt
      (storeInt4Slot dense) (fun visit k => visit.2 = k ∧ visit.1.1.isSome)
      (fun k => slots[k]?.bind (slotNibble dense)) slots.zipIdx := by
    constructor
    · intro visit _ out hout
      rw [length_storeInt4Slot, hout]
    · rintro visit hvisit out hout _ ⟨rfl, hsome⟩
      obtain ⟨source, hsource⟩ := Option.isSome_iff_exists.mp hsome
      have hfound : slots[visit.2]? = some visit.1 := List.mem_zipIdx_iff_getElem?.mp hvisit
      have hlt := (hfits visit hvisit).source source hsource
      have hbyte := (hfits visit hvisit).slot
      simp only [storeInt4Slot, hsource, hfound, Option.bind_some, slotNibble]
      rw [nibbleAt_storeNibble (by omega), List.getElem?_eq_getElem hlt, Option.map_some,
        List.getD_eq_getElem?_getD, List.getElem?_eq_getElem hlt, Option.getD_some]
    · intro visit hvisit out _ k hk
      cases hsource : visit.1.1 with
      | none => simp only [storeInt4Slot, hsource]
      | some source =>
        simp only [storeInt4Slot, hsource]
        apply nibbleAt_storeNibble_other
        rintro rfl
        exact hk ⟨rfl, by rw [hsource]; rfl⟩
  have hvisit : (slot, s) ∈ slots.zipIdx := List.mem_zipIdx_iff_getElem?.mpr hslot
  cases hsource : slot.1 with
  | some source =>
    rw [htoward.foldl_hit rfl ⟨_, hvisit, rfl, by rw [hsource]; rfl⟩, hslot, Option.bind_some]
  | none =>
    have hnone : ∀ visit ∈ slots.zipIdx, ¬ (visit.2 = s ∧ visit.1.1.isSome) := by
      rintro visit hother ⟨rfl, hsome⟩
      have hfound : slots[visit.2]? = some visit.1 := List.mem_zipIdx_iff_getElem?.mp hother
      rw [hslot] at hfound
      obtain rfl := Option.some.inj hfound
      rw [hsource] at hsome
      cases hsome
    rw [htoward.foldl_miss rfl hnone]
    unfold nibbleAt slotNibble
    rw [hzero _ (hfits _ hvisit).slot, hsource]
    dsimp only [Option.map_some]
    split_ifs <;> rfl

theorem storeInt4Slot_beyond {visit : (Option Nat × Nat) × Nat} (hslot : visit.2 / 2 < packedLen)
    (out : Bytes) {k : Nat} (hk : packedLen ≤ k) :
    (storeInt4Slot dense out visit)[k]? = out[k]? := by
  unfold storeInt4Slot
  split
  · rfl
  · exact List.getElem?_modify_ne _ _ (by omega)

/-- **The int4 packer refuses before it writes, or fills its destination.** -/
theorem packInt4Into_run : packInt4Into dense kh kw cin cout padded packed =
    outcome packed (packHwcfToRocketWeightsInt4Padded dense kh kw cin cout padded packed) := by
  unfold packInt4Into packHwcfToRocketWeightsInt4Padded
  apply check_bind
  intro _ _
  apply check_bind
  intro denseLen hdense
  apply check_bind
  intro _ hread
  apply check_bind
  intro _ _
  apply check_bind
  intro packedLen hsize
  rw [Into.bind_ok_run (x := Into.capacity) rfl]
  apply check_bind
  intro _ hle
  rw [unlessErr_ok] at hread hle
  rw [okOr_ok] at hdense
  obtain ⟨layout, hlayout⟩ : ∃ layout, WeightLayout.new cin padded 4 = .ok layout := by
    unfold rocketWeightStorageSizeBits at hsize
    simp only [bind_ok] at hsize
    exact ⟨_, hsize.choose_spec.1⟩
  have hzeroed := length_zeroed hle
  have hfits := nibbles_fit hdense hread hlayout hsize
  have hloop := forEach_run (length_storeInt4Slot dense)
    (fun visit hvisit packed hpacked => mergeSlot_run (hfits visit hvisit) hpacked)
    (hle.trans hzeroed.ge)
  have hfill : Into.fillZero packedLen packed = (.ok (), zeroed packed packedLen) := if_pos hle
  have hchecked : Into.check (WeightLayout.new cin padded 4) (zeroed packed packedLen) =
      (.ok layout, zeroed packed packedLen) := by
    rw [hlayout]
    rfl
  rw [Into.bind_ok_run hfill, Into.bind_ok_run hchecked, Into.bind_ok_run hloop, hlayout]
  rfl

end Nibbles

/-! ### What a packed filter is -/

/-- The walk numbers the slots of a layout from zero, as many as the storage size holds. They follow the
nest's order, and those that name an element are in bijection with the coefficients. -/
structure SlotsExact (layout : WeightLayout) (kh kw cin cout padded bits : Nat) : Prop where
  numbered : layout.visitSlots kh kw cin cout (fun visited slot _ => visited ++ [slot]) [] =
    ((layout.slots kh kw cin cout).length, List.range (layout.slots kh kw cin cout).length)
  size : ∀ length, rocketWeightStorageSizeBits kh kw cin padded bits = .ok length →
    (layout.slots kh kw cin cout).length * bits / 8 = length
  order : layout.slots kh kw cin cout = (layout.coordinates kh kw).map (layout.slotAt kw cin cout)
  sorted : (layout.coordinates kh kw).Pairwise (List.Lex (· < ·))
  coefficient : ∀ c : Coefficient, c.Inside kh kw cin cout →
    ∃! s : Nat, (layout.slots kh kw cin cout)[s]? = some (some (c.element kw cin cout), c.co)
  named : ∀ slot ∈ layout.slots kh kw cin cout, ∀ source, slot.1 = some source →
    ∃! c : Coefficient, c.Inside kh kw cin cout ∧ c.element kw cin cout = source ∧ slot.2 = c.co

/-- The bytes of a packed filter: each slot's, and beyond them what was there. -/
structure BytesExact (slots : List (Option Nat × Nat)) (outputChannels elementSize : Nat)
    (zeroPoints : Option (List Int8)) (dense packed : Bytes) (result : Nat × Bytes) : Prop where
  length : slots.length * elementSize = result.1
  within : result.1 ≤ packed.length ∧ result.2.length = packed.length
  reads : ∀ slot ∈ slots, ∀ source, slot.1 = some source →
    source * elementSize + elementSize ≤ dense.length
  holds : ∀ s slot, slots[s]? = some slot → ∀ lane < elementSize,
    result.2[s * elementSize + lane]? =
      slotByte dense outputChannels elementSize zeroPoints slot lane
  beyond : result.2.drop result.1 = packed.drop result.1

/-- The nibbles of a packed int4 filter, two to a byte. -/
structure NibblesExact (slots : List (Option Nat × Nat)) (dense : List Int8) (packed : Bytes)
    (result : Nat × Bytes) : Prop where
  length : slots.length = result.1 * 2
  within : result.1 ≤ packed.length ∧ result.2.length = packed.length
  reads : ∀ slot ∈ slots, ∀ source, slot.1 = some source → source < dense.length
  holds : ∀ s slot, slots[s]? = some slot → nibbleAt result.2 s = slotNibble dense slot
  beyond : result.2.drop result.1 = packed.drop result.1

section Exact

variable {layout : WeightLayout} {kh kw cin cout padded bits : Nat}

/-- **The slots of a layout are exact.** -/
theorem slots_exact (hlayout : WeightLayout.new cin padded bits = .ok layout) (hcout : cout ≤ padded) :
    SlotsExact layout kh kw cin cout padded bits := by
  constructor
  · have hlog : ∀ (visits : List ((Option Nat × Nat) × Nat)) (log : List Nat),
        visits.foldl (fun log visit => log ++ [visit.2]) log = log ++ visits.map Prod.snd := by
      intro visits
      induction visits with
      | nil => simp
      | cons visit visits ih =>
        intro log
        rw [List.foldl_cons, ih, List.map_cons, List.append_assoc, List.singleton_append]
    rw [WeightLayout.visitSlots_eq, hlog, List.nil_append, List.zipIdx_map_snd, List.range_eq_range']
  · intro length hsize
    unfold rocketWeightStorageSizeBits at hsize
    simp only [bind_ok, unlessErr_ok, okOr_ok, pure_ok, exists_const, hlayout, Except.ok.injEq,
      exists_eq_left'] at hsize
    obtain ⟨-, total, htotal, rfl⟩ := hsize
    have htotal := checkedProduct_some htotal
    simp only [List.prod_cons, List.prod_nil, Nat.mul_one] at htotal
    rw [WeightLayout.length_slots_eq hlayout, htotal]
    congr 1
    ring
  · exact layout.slots_eq kh kw cin cout
  · exact (nest_sorted _).filter _
  · intro c hc
    have hone := WeightLayout.countP_coefficient hlayout hcout hc
    obtain ⟨s, slot, hs, hsource, honly⟩ := exists_index_of_countP hone
    have hsource := of_decide_eq_true hsource
    obtain ⟨c', hc', helement, hchannel⟩ := WeightLayout.exists_coefficient (List.mem_of_getElem? hs) hsource
    obtain rfl := Coefficient.element_inj hc' hc helement
    refine ⟨s, ?_, fun s' hs' => honly s' _ hs' (decide_eq_true rfl)⟩
    dsimp only
    rw [hs, ← hsource, ← hchannel]
  · intro slot hslot source hsource
    obtain ⟨c, hc, helement, hchannel⟩ := WeightLayout.exists_coefficient hslot hsource
    refine ⟨c, ⟨hc, helement, hchannel⟩, fun c' h => ?_⟩
    exact Coefficient.element_inj h.1 hc (h.2.1.trans helement.symm)

/-- A packed filter's bytes are exact, whatever the filler. -/
theorem packHwcf_exact {dense packed : Bytes} {elementSize : Nat} {zeroPoints : Option (List Int8)}
    {result : Nat × Bytes} (hlayout : WeightLayout.new cin padded (elementSize * 8) = .ok layout)
    (h : packHwcfToRocketWeightsImpl dense kh kw cin cout padded elementSize zeroPoints packed =
      .ok result) :
    BytesExact (layout.slots kh kw cin cout) cout elementSize zeroPoints dense packed result := by
  obtain ⟨hsize, hle, fresh, hfresh, hpack⟩ := packHwcf_frame h
  have hlength := length_packHwcf h
  have hbeyond : result.2.drop result.1 = packed.drop result.1 := by
    have hsame := congrArg Prod.snd (Except.ok.inj (h.symm.trans (hpack packed hle)))
    dsimp only at hsame
    rw [hsame]
    exact List.drop_left' hfresh
  unfold packHwcfToRocketWeightsImpl at h
  simp only [bind_ok, unlessErr_ok, okOr_ok, pure_ok, exists_const] at h
  obtain ⟨-, denseLen, hdense, hread, packedLen, hsize', -, layout', hlayout', rfl⟩ := h
  obtain rfl := Except.ok.inj (hlayout.symm.trans hlayout')
  have hfits := visits_fit hdense hread hsize hlayout
  have hpos := (slots_fit hsize hlayout cout).2
  constructor
  · exact slots_whole hsize hlayout
  · exact ⟨hle, hlength⟩
  · intro slot hslot source hsource
    obtain ⟨s, hs⟩ := List.getElem?_of_mem hslot
    exact (hfits (slot, s) (List.mem_zipIdx_iff_getElem?.mpr hs)).source source hsource
  · intro s slot hs lane hlane
    refine storeSlots_content hfits ?_ ?_ hs hlane
    · rw [length_zeroed hle]
      exact hle
    · exact fun k hk => getElem?_zeroed hk
  · exact hbeyond

theorem packInt4_exact {dense : List Int8} {packed : Bytes} {result : Nat × Bytes}
    (hlayout : WeightLayout.new cin padded 4 = .ok layout)
    (h : packHwcfToRocketWeightsInt4Padded dense kh kw cin cout padded packed = .ok result) :
    NibblesExact (layout.slots kh kw cin cout) dense packed result := by
  unfold packHwcfToRocketWeightsInt4Padded at h
  simp only [bind_ok, unlessErr_ok, okOr_ok, pure_ok, exists_const] at h
  obtain ⟨-, denseLen, hdense, hread, -, packedLen, hsize, hle, layout', hlayout', rfl⟩ := h
  obtain rfl := Except.ok.inj (hlayout.symm.trans hlayout')
  have hfits := nibbles_fit hdense hread hlayout hsize
  constructor
  · exact nibbles_whole hlayout hsize
  · exact ⟨hle, by rw [length_foldl (length_storeInt4Slot dense), length_zeroed hle]⟩
  · intro slot hslot source hsource
    obtain ⟨s, hs⟩ := List.getElem?_of_mem hslot
    exact (hfits (slot, s) (List.mem_zipIdx_iff_getElem?.mpr hs)).source source hsource
  · intro s slot hs
    refine storeInt4Slots_content hfits ?_ ?_ hs
    · rw [length_zeroed hle]
      exact hle
    · exact fun k hk => getElem?_zeroed hk
  · apply List.ext_getElem?
    intro k
    rw [List.getElem?_drop, List.getElem?_drop]
    have hbeyond : packedLen ≤ packedLen + k := Nat.le_add_right _ _
    have hsame : ∀ out : Bytes, ((layout.slots kh kw cin cout).zipIdx.foldl (storeInt4Slot dense)
        out)[packedLen + k]? = out[packedLen + k]? :=
      foldl_get fun visit hvisit out => storeInt4Slot_beyond (hfits visit hvisit).slot out hbeyond
    rw [hsame]
    unfold zeroed
    rw [List.getElem?_append_right (by simp), List.length_replicate, List.getElem?_drop]
    congr 1
    omega

/-- A dense packer accepts what is large enough. -/
theorem packHwcf_accepts {dense packed : Bytes} {elementSize denseLen length : Nat}
    {zeroPoints : Option (List Int8)} (hcout : cout ≤ padded)
    (hdense : checkedProduct kh [kw, cin, cout, elementSize] = some denseLen)
    (hread : denseLen ≤ dense.length)
    (hsize : rocketWeightStorageSize kh kw cin padded elementSize = .ok length)
    (hle : length ≤ packed.length) :
    ∃ out, packHwcfToRocketWeightsImpl dense kh kw cin cout padded elementSize zeroPoints packed =
      .ok (length, out) := by
  obtain ⟨layout, hlayout⟩ := layout_of_size hsize
  unfold packHwcfToRocketWeightsImpl
  simp only [bind_ok, unlessErr_ok, okOr_ok, pure_ok, exists_const]
  exact ⟨_, hcout, denseLen, hdense, hread, length, hsize, hle, layout, hlayout, rfl⟩

/-- What the packers over a layout write. None indexes out of range on any input: run into a destination,
each either refuses before it writes or fills it. -/
structure PackersExact (layout : WeightLayout) (kh kw cin cout padded bits : Nat) : Prop where
  byte : cout = padded → ∀ elementSize, elementSize * 8 = bits → ∀ dense packed result,
    packHwcfToRocketWeights dense kh kw cin cout elementSize packed = .ok result →
      BytesExact (layout.slots kh kw cin cout) cout elementSize none dense packed result
  bytePadded : ∀ elementSize, elementSize * 8 = bits → ∀ dense packed result,
    packHwcfToRocketWeightsPadded dense kh kw cin cout padded elementSize packed = .ok result →
      BytesExact (layout.slots kh kw cin cout) cout elementSize none dense packed result
  affine : cout = padded → bits = 8 → ∀ dense zeroPoints packed result,
    packHwcfToRocketWeightsAffineI8 dense kh kw cin cout zeroPoints packed = .ok result →
      BytesExact (layout.slots kh kw cin cout) cout 1 (some zeroPoints) dense packed result
  int4 : cout = padded → bits = 4 → ∀ dense packed result,
    packHwcfToRocketWeightsInt4 dense kh kw cin cout packed = .ok result →
      NibblesExact (layout.slots kh kw cin cout) dense packed result
  int4Padded : bits = 4 → ∀ dense packed result,
    packHwcfToRocketWeightsInt4Padded dense kh kw cin cout padded packed = .ok result →
      NibblesExact (layout.slots kh kw cin cout) dense packed result
  bytesInRange : ∀ elementSize zeroPoints, (∀ zs, zeroPoints = some zs → zs.length = cout) →
    ∀ dense packed, packHwcfInto dense kh kw cin cout padded elementSize zeroPoints packed =
      outcome packed
        (packHwcfToRocketWeightsImpl dense kh kw cin cout padded elementSize zeroPoints packed)
  nibblesInRange : ∀ dense packed, packInt4Into dense kh kw cin cout padded packed =
    outcome packed (packHwcfToRocketWeightsInt4Padded dense kh kw cin cout padded packed)

theorem packers_exact (hlayout : WeightLayout.new cin padded bits = .ok layout) :
    PackersExact layout kh kw cin cout padded bits := by
  constructor
  · rintro rfl elementSize rfl dense packed result h
    exact packHwcf_exact hlayout h
  · rintro elementSize rfl dense packed result h
    exact packHwcf_exact hlayout h
  · rintro rfl rfl dense zeroPoints packed result h
    unfold packHwcfToRocketWeightsAffineI8 at h
    simp only [bind_ok, unlessErr_ok, exists_const] at h
    exact packHwcf_exact hlayout h.2
  · rintro rfl rfl dense packed result h
    exact packInt4_exact hlayout h
  · rintro rfl dense packed result h
    exact packInt4_exact hlayout h
  · exact fun elementSize zeroPoints hzero dense packed => packHwcfInto_run hzero
  · exact fun dense packed => packInt4Into_run

/-- **Dense packing is a bijection onto its slots.** The walk numbers the slots of a layout once each and
as many as the storage size holds. The slots that name an element are in bijection with the filter's
coefficients, in the order of the nest. Every packer leaves in each slot its coefficient or its filler,
changes nothing beyond the packed size, and indexes nothing out of range. -/
theorem dense_packing_bijection (hlayout : WeightLayout.new cin padded bits = .ok layout)
    (hcout : cout ≤ padded) :
    SlotsExact layout kh kw cin cout padded bits ∧ PackersExact layout kh kw cin cout padded bits :=
  ⟨slots_exact hlayout hcout, packers_exact hlayout⟩

/-- A pointwise int8 filter of three input channels and one output channel, programmed as two. -/
theorem dense_packing_bijection_threeChannels :
    SlotsExact ⟨32, 32, 16, 2, 1, 1⟩ 1 1 3 1 2 8 ∧ PackersExact ⟨32, 32, 16, 2, 1, 1⟩ 1 1 3 1 2 8 :=
  dense_packing_bijection (by decide) (by decide)

end Exact

end IreeRocket.Weights
