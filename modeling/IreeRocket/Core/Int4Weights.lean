import IreeRocket.Core.PackerWrites
import Mathlib.Tactic.IntervalCases

/-!
# Int4 coefficients

The nibble packer shares the order of the byte packers and stores two coefficients to a byte, the even
slot in the low nibble.
-/

namespace IreeRocket.Weights

open Conv

/-- `packed[slot / 2]` with the slot's nibble replaced. The source panics where the byte lies outside
`packed`; here nothing is stored. -/
def storeNibble (packed : Bytes) (slot : Nat) (nibble : UInt8) : Bytes :=
  packed.modify (slot / 2) fun byte =>
    if slot % 2 = 0 then (byte &&& 0xf0) ||| nibble else (byte &&& 0x0f) ||| (nibble <<< (4 : UInt8))

/-- What the int4 packer stores for one visited slot. -/
def storeInt4Slot (dense : List Int8) (packed : Bytes) (visit : (Option Nat × Nat) × Nat) : Bytes :=
  match visit.1.1 with
  | none => packed
  | some source => storeNibble packed visit.2 ((dense.getD source 0).toUInt8 &&& 0xf)

def packHwcfToRocketWeightsInt4Padded (dense : List Int8) (filterHeight filterWidth inputChannels
    outputChannels paddedOutputChannels : Nat) (packed : Bytes) : Except String (Nat × Bytes) := do
  unlessErr (outputChannels ≤ paddedOutputChannels)
    "padded output channel count is smaller than the logical one"
  let denseLen ← okOr (checkedProduct filterHeight [filterWidth, inputChannels, outputChannels])
    "dense HWCF storage size overflows usize"
  unlessErr (denseLen ≤ dense.length) "dense HWCF filter is smaller than its declared shape"
  unlessErr ((dense.take denseLen).all fun value => -8 ≤ value.toInt && value.toInt ≤ 7)
    "int4 coefficient is outside -8..=7"
  let packedLen ← rocketWeightStorageSizeBits filterHeight filterWidth inputChannels
    paddedOutputChannels 4
  unlessErr (packedLen ≤ packed.length)
    "Rocket weight destination is smaller than its declared shape"
  let layout ← WeightLayout.new inputChannels paddedOutputChannels 4
  let visits := (layout.slots filterHeight filterWidth inputChannels outputChannels).zipIdx
  return (packedLen, visits.foldl (storeInt4Slot dense) (zeroed packed packedLen))

def packHwcfToRocketWeightsInt4 (dense : List Int8) (filterHeight filterWidth inputChannels
    outputChannels : Nat) (packed : Bytes) : Except String (Nat × Bytes) :=
  packHwcfToRocketWeightsInt4Padded dense filterHeight filterWidth inputChannels outputChannels
    outputChannels packed

/-- `dense[source]` merged into `packed[slot / 2]`. -/
def mergeNibble (dense : List Int8) (source slot : Nat) : Into Unit := fun packed =>
  if source < dense.length ∧ slot / 2 < packed.length then
    (.ok (), storeNibble packed slot ((dense.getD source 0).toUInt8 &&& 0xf))
  else Into.panic packed

/-- What the int4 packer does at one slot. -/
def mergeSlot (dense : List Int8) (visit : (Option Nat × Nat) × Nat) : Into Unit :=
  match visit.1.1 with
  | none => pure ()
  | some source => mergeNibble dense source visit.2

/-- The int4 packer into a destination, its indexing checked. -/
def packInt4Into (dense : List Int8) (filterHeight filterWidth inputChannels outputChannels
    paddedOutputChannels : Nat) : Into Nat := do
  Into.check (unlessErr (outputChannels ≤ paddedOutputChannels)
    "padded output channel count is smaller than the logical one")
  let denseLen ← Into.check (okOr (checkedProduct filterHeight
      [filterWidth, inputChannels, outputChannels])
    "dense HWCF storage size overflows usize")
  Into.check (unlessErr (denseLen ≤ dense.length)
    "dense HWCF filter is smaller than its declared shape")
  Into.check (unlessErr ((dense.take denseLen).all fun value => -8 ≤ value.toInt && value.toInt ≤ 7)
    "int4 coefficient is outside -8..=7")
  let packedLen ← Into.check (rocketWeightStorageSizeBits filterHeight filterWidth inputChannels
    paddedOutputChannels 4)
  let capacity ← Into.capacity
  Into.check (unlessErr (packedLen ≤ capacity)
    "Rocket weight destination is smaller than its declared shape")
  Into.fillZero packedLen
  let layout ← Into.check (WeightLayout.new inputChannels paddedOutputChannels 4)
  forEach (mergeSlot dense)
    (layout.slots filterHeight filterWidth inputChannels outputChannels).zipIdx
  return packedLen

/-- The nibble a slot occupies. -/
def nibbleAt (packed : Bytes) (slot : Nat) : Option UInt8 :=
  packed[slot / 2]?.map fun byte => if slot % 2 = 0 then byte &&& 0x0f else byte >>> (4 : UInt8)

/-! ### One nibble -/

theorem low_of_low (byte value : UInt8) :
    ((byte &&& 0xf0) ||| (value &&& 0x0f)) &&& 0x0f = value &&& 0x0f := by
  apply UInt8.eq_of_toBitVec_eq
  ext i hi
  simp only [UInt8.toBitVec_and, UInt8.toBitVec_or]
  interval_cases i <;> simp

theorem high_of_low (byte value : UInt8) :
    ((byte &&& 0xf0) ||| (value &&& 0x0f)) >>> (4 : UInt8) = byte >>> (4 : UInt8) := by
  apply UInt8.eq_of_toBitVec_eq
  ext i hi
  simp only [UInt8.toBitVec_and, UInt8.toBitVec_or, UInt8.toBitVec_shiftRight]
  interval_cases i <;> simp

theorem low_of_high (byte value : UInt8) :
    ((byte &&& 0x0f) ||| ((value &&& 0x0f) <<< (4 : UInt8))) &&& 0x0f = byte &&& 0x0f := by
  apply UInt8.eq_of_toBitVec_eq
  ext i hi
  simp only [UInt8.toBitVec_and, UInt8.toBitVec_or, UInt8.toBitVec_shiftLeft]
  interval_cases i <;> simp

theorem high_of_high (byte value : UInt8) :
    ((byte &&& 0x0f) ||| ((value &&& 0x0f) <<< (4 : UInt8))) >>> (4 : UInt8) = value &&& 0x0f := by
  apply UInt8.eq_of_toBitVec_eq
  ext i hi
  simp only [UInt8.toBitVec_and, UInt8.toBitVec_or, UInt8.toBitVec_shiftLeft, UInt8.toBitVec_shiftRight]
  interval_cases i <;> simp

theorem length_storeNibble (packed : Bytes) (slot : Nat) (nibble : UInt8) :
    (storeNibble packed slot nibble).length = packed.length := List.length_modify ..

/-- The slot's nibble is the one stored. -/
theorem nibbleAt_storeNibble {packed : Bytes} {slot : Nat} (h : slot / 2 < packed.length)
    (value : UInt8) :
    nibbleAt (storeNibble packed slot (value &&& 0x0f)) slot = some (value &&& 0x0f) := by
  unfold nibbleAt storeNibble
  rw [List.getElem?_modify_eq, List.getElem?_eq_getElem h, Option.map_eq_map, Option.map_some,
    Option.map_some]
  split_ifs
  · rw [low_of_low]
  · rw [high_of_high]

/-- No other slot's nibble changes. -/
theorem nibbleAt_storeNibble_other {packed : Bytes} {slot slot' : Nat} (h : slot' ≠ slot)
    (value : UInt8) :
    nibbleAt (storeNibble packed slot (value &&& 0x0f)) slot' = nibbleAt packed slot' := by
  unfold nibbleAt storeNibble
  by_cases hbyte : slot / 2 = slot' / 2
  · rw [hbyte, List.getElem?_modify_eq, Option.map_eq_map, Option.map_map]
    congr 1
    funext byte
    by_cases heven : slot % 2 = 0
    · simp only [Function.comp_apply, if_pos heven, if_neg (show ¬ slot' % 2 = 0 by omega)]
      exact high_of_low byte value
    · simp only [Function.comp_apply, if_neg heven, if_pos (show slot' % 2 = 0 by omega)]
      exact low_of_high byte value
  · rw [List.getElem?_modify_ne _ _ hbyte]

end IreeRocket.Weights
