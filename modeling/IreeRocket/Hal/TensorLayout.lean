import IreeRocket.Core.Weights
import IreeRocket.Lib.Writes
import Mathlib.GroupTheory.GroupAction.Ring

/-!
# Feature tensors in NC1HWC2

The packer that spreads a dense NHWC tensor over 16-byte surfaces and the compactors that gather a
cube back. `pack_spec`, `gather_spec` and `compact_spec` say what each of them leaves at every byte; the
rest of the development uses only these.
-/

namespace IreeRocket.TensorLayout

open Writes

def featureAtomicBytes : Nat := 16

/-- Bytes of the surfaces that hold `pixelCount` dense pixels. -/
def nc1hwc2StorageSize (pixelCount bytesPerPixel : Nat) : Except String Nat := do
  unlessErr (bytesPerPixel ≠ 0) "NC1HWC2 bytes per pixel must be nonzero"
  let surfaceCount := bytesPerPixel ⌈/⌉ featureAtomicBytes
  okOr (checkedProduct pixelCount [surfaceCount, featureAtomicBytes])
    "NC1HWC2 storage size overflows usize"

/-- The chunks `(done, length)` of the loop `while done < total`, which takes a block at a time. -/
def chunks (total block : Nat) : List (Nat × Nat) :=
  (List.range (total ⌈/⌉ block)).map fun i => (i * block, min (total - i * block) block)

/-! ### Packing -/

/-- A visit `(pixel, (copied, length))` of the packer: the chunk, and zeros to the end of its atom. -/
def packChunk (dense : Bytes) (pixelCount bytesPerPixel : Nat) (packed : Bytes)
    (visit : Nat × Nat × Nat) : Bytes :=
  let pixel := visit.1
  let copied := visit.2.1
  let chunkLen := visit.2.2
  let surface := copied / featureAtomicBytes
  let srcOffset := pixel * bytesPerPixel + copied
  let dstOffset := surface * pixelCount * featureAtomicBytes + pixel * featureAtomicBytes
  let packed := store packed dstOffset (load dense srcOffset chunkLen)
  if chunkLen < featureAtomicBytes then
    store packed (dstOffset + chunkLen) (List.replicate (featureAtomicBytes - chunkLen) 0)
  else packed

def packVisits (pixelCount bytesPerPixel : Nat) : List (Nat × Nat × Nat) :=
  (List.range pixelCount).flatMap fun pixel =>
    (chunks bytesPerPixel featureAtomicBytes).map fun chunk => (pixel, chunk)

/-- `pack_nhwc_to_nc1hwc2_padded`: the count of bytes written and the destination afterwards. -/
def packNhwcToNc1hwc2Padded (dense : Bytes) (pixelCount bytesPerPixel packedBytesPerPixel : Nat)
    (packed : Bytes) : Except String (Nat × Bytes) := do
  unlessErr (bytesPerPixel ≤ packedBytesPerPixel)
    "packed NC1HWC2 pixel width is smaller than the dense pixel width"
  let denseLen ← okOr (checkedMul pixelCount bytesPerPixel)
    "dense NHWC storage size overflows usize"
  unlessErr (denseLen ≤ dense.length) "dense NHWC input is smaller than its declared shape"
  let packedLen ← nc1hwc2StorageSize pixelCount packedBytesPerPixel
  unlessErr (packedLen ≤ packed.length) "NC1HWC2 destination is smaller than its declared shape"
  let writtenSurfaces := bytesPerPixel ⌈/⌉ featureAtomicBytes
  let paddingStart := writtenSurfaces * pixelCount * featureAtomicBytes
  let padded :=
    if paddingStart < packedLen then
      store packed paddingStart (List.replicate (packedLen - paddingStart) 0)
    else packed
  return (packedLen,
    (packVisits pixelCount bytesPerPixel).foldl (packChunk dense pixelCount bytesPerPixel) padded)

/-! ### Compaction -/

/-- One chunk copy of a compactor. `sourceEnd` bounds the source. -/
structure ChunkCopy where
  source : Nat
  sourceEnd : Nat
  target : Nat
  length : Nat
  deriving DecidableEq, Repr

namespace ChunkCopy

/-- The compactors return early at a chunk outside the source or the destination. -/
def InRange (copy : ChunkCopy) (dstLength : Nat) : Prop :=
  copy.source + copy.length ≤ copy.sourceEnd ∧ copy.target + copy.length ≤ dstLength

instance (copy : ChunkCopy) (dstLength : Nat) : Decidable (copy.InRange dstLength) :=
  inferInstanceAs (Decidable (_ ∧ _))

/-- `dst[dst_off..][..chunk_len].copy_from_slice(&scratch[src_off..][..chunk_len])`. -/
def apply (scratch dst : Bytes) (copy : ChunkCopy) : Bytes :=
  store dst copy.target (load scratch copy.source copy.length)

/-- The copies in order. The error is an early return. -/
def applyAll (scratch : Bytes) : List ChunkCopy → Nat × Bytes → Except (Nat × Bytes) (Nat × Bytes)
  | [], result => .ok result
  | copy :: copies, (written, dst) =>
    if copy.InRange dst.length then
      applyAll scratch copies (written + copy.length, copy.apply scratch dst)
    else .error (written, dst)

end ChunkCopy

/-- What the caller of a compactor gets, early return or not. -/
def returned {α : Type} : Except α α → α
  | .ok result | .error result => result

/-- The chunks of one pixel. `base` is where the source image begins. -/
def pixelCopies (base sourceEnd sourcePixelCount bytesPerPixel sourceBlockBytes sourcePixel
    outputPixel : Nat) : List ChunkCopy :=
  (chunks bytesPerPixel sourceBlockBytes).map fun (pixelWritten, chunkLen) =>
    { source := base + pixelWritten / sourceBlockBytes * sourcePixelCount * sourceBlockBytes +
        sourcePixel * sourceBlockBytes
      sourceEnd
      target := outputPixel * bytesPerPixel + pixelWritten
      length := chunkLen }

/-- The chunks of some pixels of one image. -/
def imageCopies (scratch : Bytes) (sourcePixelCount bytesPerPixel sourceBlockBytes : Nat)
    (pixels : List Nat) : List ChunkCopy :=
  pixels.flatMap fun pixel =>
    pixelCopies 0 scratch.length sourcePixelCount bytesPerPixel sourceBlockBytes pixel pixel

/-- `compact_atomic_output`. -/
def compactAtomicOutput (scratch : Bytes) (sourcePixelCount outputPixelCount bytesPerPixel
    sourceBlockBytes : Nat) (dst : Bytes) : Nat × Bytes :=
  if sourceBlockBytes = 0 then (0, dst)
  else
    returned (ChunkCopy.applyAll scratch
      (imageCopies scratch sourcePixelCount bytesPerPixel sourceBlockBytes
        (List.range outputPixelCount)) (0, dst))

/-! ### What the packer leaves -/

theorem lt_ceilDiv_iff {total block i : Nat} (hblock : 0 < block) :
    i < total ⌈/⌉ block ↔ block * i < total :=
  lt_iff_lt_of_le_iff_le (ceilDiv_le_iff_le_mul hblock)

theorem mem_chunks {total block : Nat} (hblock : 0 < block) {chunk : Nat × Nat} :
    chunk ∈ chunks total block ↔
      ∃ i, block * i < total ∧ chunk = (i * block, min (total - i * block) block) := by
  unfold chunks
  simp only [List.mem_map, List.mem_range, lt_ceilDiv_iff hblock, eq_comm]

theorem mem_packVisits {pixelCount bytesPerPixel : Nat} {visit : Nat × Nat × Nat} :
    visit ∈ packVisits pixelCount bytesPerPixel ↔
      ∃ pixel i, pixel < pixelCount ∧ 16 * i < bytesPerPixel ∧
        visit = (pixel, i * 16, min (bytesPerPixel - i * 16) 16) := by
  unfold packVisits
  simp only [List.mem_flatMap, List.mem_map, List.mem_range, featureAtomicBytes,
    mem_chunks (show 0 < 16 by decide)]
  constructor
  · rintro ⟨pixel, hpixel, chunk, ⟨i, hi, rfl⟩, rfl⟩
    exact ⟨pixel, i, hpixel, hi, rfl⟩
  · rintro ⟨pixel, i, hpixel, hi, rfl⟩
    exact ⟨pixel, hpixel, _, ⟨i, hi, rfl⟩, rfl⟩

/-- The byte of surface `surface`, pixel `pixel` and lane `lane` in surfaces of `pixelCount` pixels. -/
def cubeOffset (pixelCount surface pixel lane : Nat) : Nat :=
  (surface * pixelCount + pixel) * 16 + lane

theorem cubeOffset_pixel {pixelCount s pixel lane : Nat} (hpixel : pixel < pixelCount)
    (hlane : lane < 16) :
    cubeOffset pixelCount s pixel lane / 16 % pixelCount = pixel ∧
      cubeOffset pixelCount s pixel lane / 16 / pixelCount = s ∧
      cubeOffset pixelCount s pixel lane % 16 = lane := by
  have hatom : cubeOffset pixelCount s pixel lane / 16 = s * pixelCount + pixel := by
    unfold cubeOffset
    omega
  refine ⟨?_, ?_, ?_⟩
  · rw [hatom, Nat.mul_comm, Nat.mul_add_mod, Nat.mod_eq_of_lt hpixel]
  · rw [hatom, Nat.mul_comm, Nat.mul_add_div (by omega), Nat.div_eq_of_lt hpixel, Nat.add_zero]
  · unfold cubeOffset
    omega

/-- The byte the packer puts at an offset of the live surfaces. -/
def packedByte (dense : Bytes) (pixelCount bytesPerPixel offset : Nat) : Option UInt8 :=
  let pixel := offset / 16 % pixelCount
  let lane := offset / 16 / pixelCount * 16 + offset % 16
  if lane < bytesPerPixel then dense[pixel * bytesPerPixel + lane]? else some 0

theorem length_packChunk (dense : Bytes) (pixelCount bytesPerPixel : Nat) (packed : Bytes)
    (visit : Nat × Nat × Nat) :
    (packChunk dense pixelCount bytesPerPixel packed visit).length = packed.length := by
  unfold packChunk
  simp only
  split_ifs
  · rw [length_store, length_store]
  · rw [length_store]

theorem dstOffset_eq (pixelCount pixel i : Nat) :
    i * 16 / featureAtomicBytes * pixelCount * featureAtomicBytes + pixel * featureAtomicBytes =
      cubeOffset pixelCount i pixel 0 := by
  unfold cubeOffset featureAtomicBytes
  rw [Nat.mul_div_cancel i (by decide)]
  omega

theorem packChunk_eq (dense packed : Bytes) (pixelCount bytesPerPixel pixel i chunkLen : Nat) :
    packChunk dense pixelCount bytesPerPixel packed (pixel, i * 16, chunkLen) =
      if chunkLen < 16 then
        store (store packed (cubeOffset pixelCount i pixel 0)
            (load dense (pixel * bytesPerPixel + i * 16) chunkLen))
          (cubeOffset pixelCount i pixel 0 + chunkLen) (List.replicate (16 - chunkLen) 0)
      else
        store packed (cubeOffset pixelCount i pixel 0)
          (load dense (pixel * bytesPerPixel + i * 16) chunkLen) := by
  rw [← dstOffset_eq]
  rfl

/-- A visit fills its atom with the chunk and zeros. -/
theorem getElem?_packChunk {dense packed : Bytes} {pixelCount bytesPerPixel pixel i lane : Nat}
    (hi : 16 * i < bytesPerPixel) (hlane : lane < 16)
    (hdense : pixel * bytesPerPixel + bytesPerPixel ≤ dense.length)
    (hin : cubeOffset pixelCount i pixel lane < packed.length) :
    (packChunk dense pixelCount bytesPerPixel packed
        (pixel, i * 16, min (bytesPerPixel - i * 16) 16))[cubeOffset pixelCount i pixel lane]? =
      if i * 16 + lane < bytesPerPixel then dense[pixel * bytesPerPixel + (i * 16 + lane)]?
      else some 0 := by
  have hoffset : cubeOffset pixelCount i pixel lane = cubeOffset pixelCount i pixel 0 + lane := rfl
  have hchunk : (load dense (pixel * bytesPerPixel + i * 16)
      (min (bytesPerPixel - i * 16) 16)).length = min (bytesPerPixel - i * 16) 16 :=
    length_load (by omega)
  rw [packChunk_eq]
  by_cases hlive : i * 16 + lane < bytesPerPixel
  · have hfirst : (store packed (cubeOffset pixelCount i pixel 0) (load dense
        (pixel * bytesPerPixel + i * 16) (min (bytesPerPixel - i * 16) 16)))[
          cubeOffset pixelCount i pixel lane]? = dense[pixel * bytesPerPixel + (i * 16 + lane)]? := by
      rw [getElem?_store_mem hin (by omega) (by omega), getElem?_load (by omega)]
      congr 1
      omega
    rw [if_pos hlive]
    split_ifs
    · rw [getElem?_store_not_mem (by omega), hfirst]
    · exact hfirst
  · rw [if_neg hlive, if_pos (by omega),
      getElem?_store_mem (by rw [length_store]; exact hin) (by omega)
        (by rw [List.length_replicate]; omega),
      List.getElem?_replicate, if_pos (by omega)]

theorem getElem?_packChunk_other {dense packed : Bytes} {pixelCount bytesPerPixel pixel i k : Nat}
    (hi : 16 * i < bytesPerPixel)
    (hdense : pixel * bytesPerPixel + bytesPerPixel ≤ dense.length)
    (hk : ¬ (cubeOffset pixelCount i pixel 0 ≤ k ∧ k < cubeOffset pixelCount i pixel 16)) :
    (packChunk dense pixelCount bytesPerPixel packed
        (pixel, i * 16, min (bytesPerPixel - i * 16) 16))[k]? = packed[k]? := by
  have hend : cubeOffset pixelCount i pixel 16 = cubeOffset pixelCount i pixel 0 + 16 := rfl
  have hchunk : (load dense (pixel * bytesPerPixel + i * 16)
      (min (bytesPerPixel - i * 16) 16)).length = min (bytesPerPixel - i * 16) 16 :=
    length_load (by omega)
  rw [packChunk_eq]
  split_ifs
  · rw [getElem?_store_not_mem (by rw [List.length_replicate]; omega),
      getElem?_store_not_mem (by omega)]
  · exact getElem?_store_not_mem (by omega)

theorem cubeOffset_lt {pixelCount surfaces surface pixel lane : Nat} (hsurface : surface < surfaces)
    (hpixel : pixel < pixelCount) (hlane : lane < 16) :
    cubeOffset pixelCount surface pixel lane < surfaces * pixelCount * 16 := by
  have hle : (surface + 1) * pixelCount * 16 ≤ surfaces * pixelCount * 16 :=
    Nat.mul_le_mul_right _ (Nat.mul_le_mul_right _ hsurface)
  rw [Nat.add_mul, Nat.one_mul, Nat.add_mul] at hle
  unfold cubeOffset
  omega

theorem pixel_bytes_le {pixelCount bytesPerPixel pixel length : Nat}
    (hlength : pixelCount * bytesPerPixel ≤ length) (hpixel : pixel < pixelCount) :
    pixel * bytesPerPixel + bytesPerPixel ≤ length := by
  have hle : (pixel + 1) * bytesPerPixel ≤ pixelCount * bytesPerPixel :=
    Nat.mul_le_mul_right _ hpixel
  rw [Nat.add_mul, Nat.one_mul] at hle
  exact hle.trans hlength

/-- The visits write toward `packedByte`. -/
theorem packVisits_toward {dense : Bytes} {pixelCount bytesPerPixel length : Nat}
    (hdense : pixelCount * bytesPerPixel ≤ dense.length)
    (hlength : (bytesPerPixel ⌈/⌉ 16) * pixelCount * 16 ≤ length) :
    Toward (fun packed : Bytes => packed.length = length) (fun packed k => packed[k]?)
      (packChunk dense pixelCount bytesPerPixel)
      (fun visit k => cubeOffset pixelCount (visit.2.1 / 16) visit.1 0 ≤ k ∧
        k < cubeOffset pixelCount (visit.2.1 / 16) visit.1 16)
      (packedByte dense pixelCount bytesPerPixel) (packVisits pixelCount bytesPerPixel) where
  inv visit _ packed hpacked := (length_packChunk _ _ _ _ _).trans hpacked
  hit visit hvisit packed hpacked k hk := by
    obtain ⟨pixel, i, hpixel, hi, rfl⟩ := mem_packVisits.mp hvisit
    simp only [Nat.mul_div_cancel i (show 0 < 16 by decide)] at hk
    obtain ⟨lane, hlane, rfl⟩ : ∃ lane < 16, k = cubeOffset pixelCount i pixel lane := by
      refine ⟨k - cubeOffset pixelCount i pixel 0, ?_, ?_⟩ <;> unfold cubeOffset at * <;> omega
    obtain ⟨hpixel_eq, hsurface_eq, hlane_eq⟩ := cubeOffset_pixel (s := i) hpixel hlane
    have hsurface : i < bytesPerPixel ⌈/⌉ 16 := (lt_ceilDiv_iff (by decide)).mpr hi
    have hin := (cubeOffset_lt hsurface hpixel hlane).trans_le (hlength.trans hpacked.ge)
    rw [getElem?_packChunk hi hlane (pixel_bytes_le hdense hpixel) hin]
    unfold packedByte
    simp only [hpixel_eq, hsurface_eq, hlane_eq]
  miss visit hvisit packed hpacked k hk := by
    obtain ⟨pixel, i, hpixel, hi, rfl⟩ := mem_packVisits.mp hvisit
    simp only [Nat.mul_div_cancel i (show 0 < 16 by decide)] at hk
    exact getElem?_packChunk_other hi (pixel_bytes_le hdense hpixel) hk

theorem nc1hwc2StorageSize_ok {pixelCount bytesPerPixel : Nat} (hpos : 0 < bytesPerPixel)
    (hfits : bytesPerPixel ⌈/⌉ 16 * pixelCount * 16 < 2 ^ 64) :
    nc1hwc2StorageSize pixelCount bytesPerPixel = .ok (bytesPerPixel ⌈/⌉ 16 * pixelCount * 16) := by
  have hmul : pixelCount * (bytesPerPixel ⌈/⌉ 16) = bytesPerPixel ⌈/⌉ 16 * pixelCount :=
    Nat.mul_comm _ _
  have hfirst : bytesPerPixel ⌈/⌉ 16 * pixelCount < 2 ^ 64 := by omega
  unfold nc1hwc2StorageSize featureAtomicBytes
  simp only [bind_ok, unlessErr_ok, exists_const]
  refine ⟨by omega, okOr_ok.mpr ?_⟩
  simp only [checkedProduct, checkedMul, hmul, if_pos hfirst, if_pos hfits, Option.bind_some]

theorem ceilDiv_atoms (surfaces : Nat) : (surfaces * 16) ⌈/⌉ 16 = surfaces := by
  rw [Nat.ceilDiv_eq_add_pred_div]
  omega

theorem packVisits_cover {pixelCount bytesPerPixel s pixel lane : Nat} (hpixel : pixel < pixelCount)
    (hlane : lane < 16) :
    (∃ visit ∈ packVisits pixelCount bytesPerPixel,
      cubeOffset pixelCount (visit.2.1 / 16) visit.1 0 ≤ cubeOffset pixelCount s pixel lane ∧
        cubeOffset pixelCount s pixel lane < cubeOffset pixelCount (visit.2.1 / 16) visit.1 16) ↔
      16 * s < bytesPerPixel := by
  constructor
  · rintro ⟨visit, hvisit, hlow, hhigh⟩
    obtain ⟨pixel', i, hpixel', hi, rfl⟩ := mem_packVisits.mp hvisit
    simp only [Nat.mul_div_cancel i (show 0 < 16 by decide)] at hlow hhigh
    obtain ⟨-, hs, -⟩ := cubeOffset_pixel (s := s) hpixel hlane
    obtain ⟨-, hi', -⟩ := cubeOffset_pixel (s := i) hpixel' (show 0 < 16 by decide)
    have hatom : cubeOffset pixelCount s pixel lane / 16 = cubeOffset pixelCount i pixel' 0 / 16 := by
      unfold cubeOffset at *
      omega
    rw [← hs, hatom, hi']
    exact hi
  · intro hs
    refine ⟨_, mem_packVisits.mpr ⟨pixel, s, hpixel, hs, rfl⟩, ?_⟩
    simp only [Nat.mul_div_cancel s (show 0 < 16 by decide)]
    unfold cubeOffset
    omega

/-- **The packer**: at every surface, pixel and lane it leaves the dense byte of that channel, or zero
past the pixel's bytes, and past the surfaces what the destination held before. -/
theorem pack_fills {dense packed : Bytes} {pixelCount bytesPerPixel packedBytesPerPixel : Nat}
    (hpos : 0 < packedBytesPerPixel) (hle : bytesPerPixel ≤ packedBytesPerPixel)
    (hdense : pixelCount * bytesPerPixel ≤ dense.length)
    (hpacked : packedBytesPerPixel ⌈/⌉ 16 * pixelCount * 16 ≤ packed.length)
    (hfits : packed.length < 2 ^ 64) :
    ∃ out, packNhwcToNc1hwc2Padded dense pixelCount bytesPerPixel packedBytesPerPixel packed =
        .ok (packedBytesPerPixel ⌈/⌉ 16 * pixelCount * 16, out) ∧ out.length = packed.length ∧
      (∀ s < packedBytesPerPixel ⌈/⌉ 16, ∀ pixel < pixelCount, ∀ lane < 16,
        out[cubeOffset pixelCount s pixel lane]? =
          if s * 16 + lane < bytesPerPixel then
            dense[pixel * bytesPerPixel + (s * 16 + lane)]?
          else some 0) ∧
      ∀ k, packedBytesPerPixel ⌈/⌉ 16 * pixelCount * 16 ≤ k → out[k]? = packed[k]? := by
  set start := bytesPerPixel ⌈/⌉ 16 * pixelCount * 16 with hstart
  set stop := packedBytesPerPixel ⌈/⌉ 16 * pixelCount * 16 with hstop
  set padded := if start < stop then store packed start (List.replicate (stop - start) 0) else packed
    with hpadded
  have hstart_le : start ≤ stop :=
    Nat.mul_le_mul_right _ (Nat.mul_le_mul_right _ (ceilDiv_mono 16 hle))
  have hlength : padded.length = packed.length := by
    rw [hpadded]
    split_ifs
    · exact length_store _ _ _
    · rfl
  have htoward := packVisits_toward hdense (hstart_le.trans hpacked)
  have hdenseLen : checkedMul pixelCount bytesPerPixel = some (pixelCount * bytesPerPixel) := by
    have hround := le_ceilDiv_mul packedBytesPerPixel (b := 16) (by decide)
    have hmul : pixelCount * bytesPerPixel ≤ pixelCount * (packedBytesPerPixel ⌈/⌉ 16 * 16) :=
      Nat.mul_le_mul_left _ (hle.trans hround)
    have hstop_eq : pixelCount * (packedBytesPerPixel ⌈/⌉ 16 * 16) = stop := by
      rw [hstop, Nat.mul_comm, Nat.mul_right_comm]
    exact if_pos (by omega)
  refine ⟨(packVisits pixelCount bytesPerPixel).foldl
    (packChunk dense pixelCount bytesPerPixel) padded, ?_, htoward.foldl_inv hlength, ?_, ?_⟩
  · have hstorage := nc1hwc2StorageSize_ok hpos (hpacked.trans_lt hfits)
    unfold packNhwcToNc1hwc2Padded
    simp only [bind_ok, unlessErr_ok, okOr_ok, pure_ok, exists_const]
    exact ⟨hle, _, hdenseLen, hdense, _, hstorage, hpacked, rfl⟩
  · intro s hs pixel hpixel lane hlane
    by_cases hlive : 16 * s < bytesPerPixel
    · rw [htoward.foldl_hit hlength ((packVisits_cover hpixel hlane).mpr hlive)]
      obtain ⟨hpixel_eq, hs_eq, hlane_eq⟩ := cubeOffset_pixel (s := s) hpixel hlane
      unfold packedByte
      simp only [hpixel_eq, hs_eq, hlane_eq]
    · rw [htoward.foldl_miss hlength fun visit hvisit hcovers =>
        hlive ((packVisits_cover hpixel hlane).mp ⟨visit, hvisit, hcovers⟩), if_neg (by omega)]
      have hin := cubeOffset_lt hs hpixel hlane
      have hpast : start ≤ cubeOffset pixelCount s pixel lane := by
        have hsurface : bytesPerPixel ⌈/⌉ 16 ≤ s :=
          (ceilDiv_le_iff_le_mul (by decide)).mpr (by omega)
        have hmul : bytesPerPixel ⌈/⌉ 16 * pixelCount ≤ s * pixelCount :=
          Nat.mul_le_mul_right _ hsurface
        rw [hstart]
        unfold cubeOffset
        omega
      rw [hpadded, if_pos (by omega), getElem?_store_mem (by omega) hpast
        (by rw [List.length_replicate]; omega), List.getElem?_replicate, if_pos (by omega)]
  · intro k hk
    have hmiss : ∀ visit ∈ packVisits pixelCount bytesPerPixel,
        ¬ (cubeOffset pixelCount (visit.2.1 / 16) visit.1 0 ≤ k ∧
          k < cubeOffset pixelCount (visit.2.1 / 16) visit.1 16) := by
      rintro visit hvisit ⟨-, hcovers⟩
      obtain ⟨pixel, i, hpixel, hi, rfl⟩ := mem_packVisits.mp hvisit
      simp only [Nat.mul_div_cancel i (show 0 < 16 by decide)] at hcovers
      have hlast := cubeOffset_lt ((lt_ceilDiv_iff (by decide)).mpr hi) hpixel (show 15 < 16 by decide)
      unfold cubeOffset at hcovers hlast
      omega
    rw [htoward.foldl_miss hlength hmiss, hpadded]
    split_ifs
    · exact getElem?_store_not_mem (by rw [List.length_replicate]; omega)
    · rfl

/-- The packer, in a destination of exactly the storage size. -/
theorem pack_spec {dense packed : Bytes} {pixelCount bytesPerPixel surfaces : Nat}
    (hbytes : 0 < bytesPerPixel) (hle : bytesPerPixel ≤ surfaces * 16)
    (hdense : pixelCount * bytesPerPixel ≤ dense.length)
    (hpacked : packed.length = surfaces * pixelCount * 16) (hfits : packed.length < 2 ^ 64) :
    ∃ out, packNhwcToNc1hwc2Padded dense pixelCount bytesPerPixel (surfaces * 16) packed =
        .ok (packed.length, out) ∧ out.length = packed.length ∧
      ∀ s < surfaces, ∀ pixel < pixelCount, ∀ lane < 16,
        out[cubeOffset pixelCount s pixel lane]? =
          if s * 16 + lane < bytesPerPixel then
            dense[pixel * bytesPerPixel + (s * 16 + lane)]?
          else some 0 := by
  have hcount := ceilDiv_atoms surfaces
  obtain ⟨out, hrun, hlength, hbytes_eq, -⟩ := pack_fills (hbytes.trans_le hle) hle hdense
    (by rw [hcount]; exact hpacked.ge) hfits
  rw [hcount] at hrun hbytes_eq
  exact ⟨out, by rw [hrun, hpacked], hlength, hbytes_eq⟩

/-! ### What the compactors leave -/

theorem sum_chunks (total block : Nat) (hblock : 0 < block) :
    ((chunks total block).map Prod.snd).sum = total := by
  have hsum : ∀ n, ((List.range n).map fun i => min (total - i * block) block).sum =
      min total (n * block) := by
    intro n
    induction n with
    | zero => simp
    | succ n ih =>
      rw [List.range_succ, List.map_append, List.sum_append, ih, Nat.add_mul]
      simp only [List.map_cons, List.map_nil, List.sum_cons, List.sum_nil]
      omega
  unfold chunks
  rw [List.map_map]
  refine (hsum _).trans (min_eq_left ?_)
  rw [Nat.mul_comm]
  exact (ceilDiv_le_iff_le_mul hblock).mp le_rfl

namespace ChunkCopy

variable {scratch dst : Bytes} {copies : List ChunkCopy} {written length : Nat}

theorem length_apply (copy : ChunkCopy) : (copy.apply scratch dst).length = dst.length :=
  length_store _ _ _

/-- With every copy in range there is no early return. -/
theorem applyAll_ok (hrange : ∀ copy ∈ copies, copy.InRange dst.length) :
    applyAll scratch copies (written, dst) =
      .ok (written + (copies.map ChunkCopy.length).sum,
        copies.foldl (fun dst copy => copy.apply scratch dst) dst) := by
  induction copies generalizing written dst with
  | nil => rfl
  | cons copy copies ih =>
    have hrest : ∀ other ∈ copies, other.InRange (copy.apply scratch dst).length := by
      intro other hother
      rw [copy.length_apply]
      exact hrange other (List.mem_cons_of_mem _ hother)
    rw [applyAll, if_pos (hrange copy List.mem_cons_self), ih hrest, List.map_cons, List.sum_cons,
      List.foldl_cons, Nat.add_assoc]

/-- Copies that agree with a target write toward it. -/
theorem toward {target : Nat → Option UInt8}
    (hrange : ∀ copy ∈ copies, copy.InRange length ∧ copy.sourceEnd ≤ scratch.length)
    (htarget : ∀ copy ∈ copies, ∀ i < copy.length,
      scratch[copy.source + i]? = target (copy.target + i)) :
    Toward (fun dst : Bytes => dst.length = length) (fun dst k => dst[k]?)
      (fun dst copy => copy.apply scratch dst)
      (fun copy k => copy.target ≤ k ∧ k < copy.target + copy.length) target copies where
  inv copy _ dst hdst := copy.length_apply.trans hdst
  hit copy hcopy dst hdst k hk := by
    obtain ⟨⟨hsource, hdstRange⟩, hend⟩ := hrange copy hcopy
    have hload : (load scratch copy.source copy.length).length = copy.length :=
      length_load (hsource.trans hend)
    have hfound := htarget copy hcopy (k - copy.target) (by omega)
    rw [Nat.add_sub_cancel' hk.1] at hfound
    unfold apply
    rw [getElem?_store_mem (by omega) hk.1 (by omega), getElem?_load (by omega), hfound]
  miss copy hcopy dst hdst k hk := by
    obtain ⟨⟨hsource, -⟩, hend⟩ := hrange copy hcopy
    have hload : (load scratch copy.source copy.length).length = copy.length :=
      length_load (hsource.trans hend)
    exact getElem?_store_not_mem (by omega)

end ChunkCopy

/-- The byte of a pixel of a dense image, found in surfaces of `sourcePixelCount` pixels. -/
def sourceOffset (sourcePixelCount sourceBlockBytes pixel byte : Nat) : Nat :=
  (byte / sourceBlockBytes * sourcePixelCount + pixel) * sourceBlockBytes + byte % sourceBlockBytes

theorem mem_pixelCopies {base sourceEnd sourcePixelCount bytesPerPixel block sourcePixel
    outputPixel : Nat} (hblock : 0 < block) {copy : ChunkCopy} :
    copy ∈ pixelCopies base sourceEnd sourcePixelCount bytesPerPixel block sourcePixel outputPixel ↔
      ∃ i, block * i < bytesPerPixel ∧ copy =
        { source := base + (i * sourcePixelCount + sourcePixel) * block
          sourceEnd
          target := outputPixel * bytesPerPixel + i * block
          length := min (bytesPerPixel - i * block) block } := by
  unfold pixelCopies
  simp only [List.mem_map, mem_chunks hblock]
  constructor
  · rintro ⟨chunk, ⟨i, hi, rfl⟩, rfl⟩
    refine ⟨i, hi, ?_⟩
    simp only [Nat.mul_div_cancel i hblock, ChunkCopy.mk.injEq, and_true]
    rw [Nat.add_mul, Nat.add_assoc]
  · rintro ⟨i, hi, rfl⟩
    refine ⟨_, ⟨i, hi, rfl⟩, ?_⟩
    simp only [Nat.mul_div_cancel i hblock, ChunkCopy.mk.injEq, and_true]
    rw [Nat.add_mul, Nat.add_assoc]

theorem sum_pixelCopies (base sourceEnd sourcePixelCount bytesPerPixel : Nat) {block : Nat}
    (hblock : 0 < block) (sourcePixel outputPixel : Nat) :
    ((pixelCopies base sourceEnd sourcePixelCount bytesPerPixel block sourcePixel outputPixel).map
      ChunkCopy.length).sum = bytesPerPixel := by
  unfold pixelCopies
  rw [List.map_map]
  exact sum_chunks bytesPerPixel block hblock

/-- A chunk's bytes are a pixel's bytes from `i * block` on. -/
theorem sourceOffset_chunk {sourcePixelCount block pixel i k : Nat} (hk : k < block) :
    sourceOffset sourcePixelCount block pixel (i * block + k) =
      (i * sourcePixelCount + pixel) * block + k := by
  have hpos : 0 < block := by omega
  unfold sourceOffset
  rw [Nat.mul_comm i block, Nat.mul_add_div hpos, Nat.mul_add_mod, Nat.div_eq_of_lt hk,
    Nat.mod_eq_of_lt hk, Nat.add_zero]

theorem mem_imageCopies {scratch : Bytes} {sourcePixelCount bytesPerPixel block : Nat}
    {pixels : List Nat} (hblock : 0 < block) {copy : ChunkCopy} :
    copy ∈ imageCopies scratch sourcePixelCount bytesPerPixel block pixels ↔
      ∃ pixel ∈ pixels, ∃ i, block * i < bytesPerPixel ∧ copy =
        { source := (i * sourcePixelCount + pixel) * block
          sourceEnd := scratch.length
          target := pixel * bytesPerPixel + i * block
          length := min (bytesPerPixel - i * block) block } := by
  unfold imageCopies
  simp only [List.mem_flatMap, mem_pixelCopies hblock, Nat.zero_add]

theorem sum_imageCopies (scratch : Bytes) (sourcePixelCount bytesPerPixel : Nat) {block : Nat}
    (hblock : 0 < block) (pixels : List Nat) :
    ((imageCopies scratch sourcePixelCount bytesPerPixel block pixels).map ChunkCopy.length).sum =
      pixels.length * bytesPerPixel := by
  induction pixels with
  | nil => simp [imageCopies]
  | cons pixel pixels ih =>
    unfold imageCopies at *
    rw [List.flatMap_cons, List.map_append, List.sum_append, sum_pixelCopies _ _ _ _ hblock, ih,
      List.length_cons, Nat.add_mul, Nat.one_mul, Nat.add_comm]

/-- What every copy of a listed pixel moves, when the scratch holds every surface it reads. -/
theorem imageCopies_toward {scratch : Bytes} {sourcePixelCount bytesPerPixel block surfaces : Nat}
    {pixels : List Nat} {length : Nat} (hblock : 0 < block)
    (hpixels : ∀ pixel ∈ pixels, pixel < sourcePixelCount ∧
      pixel * bytesPerPixel + bytesPerPixel ≤ length)
    (hle : bytesPerPixel ≤ surfaces * block)
    (hscratch : surfaces * sourcePixelCount * block ≤ scratch.length) :
    (∀ copy ∈ imageCopies scratch sourcePixelCount bytesPerPixel block pixels,
      copy.InRange length) ∧
    Toward (fun dst : Bytes => dst.length = length) (fun dst k => dst[k]?)
      (fun dst copy => ChunkCopy.apply scratch dst copy)
      (fun copy k => copy.target ≤ k ∧ k < copy.target + copy.length)
      (fun k => scratch[sourceOffset sourcePixelCount block (k / bytesPerPixel)
        (k % bytesPerPixel)]?)
      (imageCopies scratch sourcePixelCount bytesPerPixel block pixels) := by
  have hrange : ∀ copy ∈ imageCopies scratch sourcePixelCount bytesPerPixel block pixels,
      copy.InRange length ∧ copy.sourceEnd ≤ scratch.length := by
    intro copy hcopy
    obtain ⟨pixel, hpixel, i, hi, rfl⟩ := (mem_imageCopies hblock).mp hcopy
    obtain ⟨hsource, htarget⟩ := hpixels pixel hpixel
    have hsurface : i < surfaces :=
      lt_of_mul_lt_mul_left (hi.trans_le (hle.trans_eq (Nat.mul_comm _ _))) (Nat.zero_le block)
    have hsurface_le : (i * sourcePixelCount + sourcePixelCount) ≤ surfaces * sourcePixelCount := by
      have := Nat.mul_le_mul_right sourcePixelCount (show i + 1 ≤ surfaces from hsurface)
      rwa [Nat.add_mul, Nat.one_mul] at this
    have hblock_le : (i * sourcePixelCount + pixel) * block + block ≤ scratch.length := by
      have := Nat.mul_le_mul_right block (show i * sourcePixelCount + pixel + 1 ≤
        surfaces * sourcePixelCount by omega)
      rw [Nat.add_mul _ 1, Nat.one_mul] at this
      exact this.trans hscratch
    refine ⟨⟨?_, ?_⟩, le_rfl⟩
    · simp only
      omega
    · rw [Nat.mul_comm] at hi
      simp only
      omega
  refine ⟨fun copy hcopy => (hrange copy hcopy).1, ChunkCopy.toward hrange ?_⟩
  intro copy hcopy k hk
  obtain ⟨pixel, hpixel, i, hi, rfl⟩ := (mem_imageCopies hblock).mp hcopy
  rw [Nat.mul_comm] at hi
  simp only at hk ⊢
  have hbyte : i * block + k < bytesPerPixel := by omega
  have hpos : 0 < bytesPerPixel := by omega
  rw [Nat.add_assoc (pixel * bytesPerPixel), Nat.mul_comm pixel, Nat.mul_add_div hpos,
    Nat.mul_add_mod, Nat.div_eq_of_lt hbyte, Nat.mod_eq_of_lt hbyte, Nat.add_zero,
    sourceOffset_chunk (by omega)]

/-- **Gathering some pixels of an image**: each byte of each of them comes from its surface and lane,
and no other byte of the destination changes. -/
theorem gather_spec {scratch dst : Bytes} {sourcePixelCount bytesPerPixel block surfaces : Nat}
    {pixels : List Nat} (hblock : 0 < block)
    (hpixels : ∀ pixel ∈ pixels, pixel < sourcePixelCount ∧
      pixel * bytesPerPixel + bytesPerPixel ≤ dst.length)
    (hle : bytesPerPixel ≤ surfaces * block)
    (hscratch : surfaces * sourcePixelCount * block ≤ scratch.length) (written : Nat) :
    ∃ out, ChunkCopy.applyAll scratch
        (imageCopies scratch sourcePixelCount bytesPerPixel block pixels) (written, dst) =
        .ok (written + pixels.length * bytesPerPixel, out) ∧ out.length = dst.length ∧
      (∀ pixel ∈ pixels, ∀ byte < bytesPerPixel, out[pixel * bytesPerPixel + byte]? =
        scratch[sourceOffset sourcePixelCount block pixel byte]?) ∧
      ∀ k, (∀ pixel ∈ pixels, k < pixel * bytesPerPixel ∨
        pixel * bytesPerPixel + bytesPerPixel ≤ k) → out[k]? = dst[k]? := by
  obtain ⟨hrange, htoward⟩ := imageCopies_toward hblock hpixels hle hscratch
  refine ⟨_, ?_, htoward.foldl_inv rfl, ?_, ?_⟩
  · rw [ChunkCopy.applyAll_ok hrange, sum_imageCopies _ _ _ hblock]
  · intro pixel hpixel byte hbyte
    have hpos : 0 < bytesPerPixel := by omega
    have hmod : byte / block * block + byte % block = byte := Nat.div_add_mod' byte block
    have hlt : byte % block < block := Nat.mod_lt _ hblock
    have hcover : ∃ copy ∈ imageCopies scratch sourcePixelCount bytesPerPixel block pixels,
        copy.target ≤ pixel * bytesPerPixel + byte ∧
          pixel * bytesPerPixel + byte < copy.target + copy.length := by
      refine ⟨_, (mem_imageCopies hblock).mpr ⟨pixel, hpixel, byte / block, ?_, rfl⟩, ?_, ?_⟩
      · rw [Nat.mul_comm]
        omega
      · simp only
        omega
      · simp only
        omega
    rw [htoward.foldl_hit rfl hcover, Nat.mul_comm pixel, Nat.mul_add_div hpos, Nat.mul_add_mod,
      Nat.div_eq_of_lt hbyte, Nat.mod_eq_of_lt hbyte, Nat.add_zero]
  · intro k hk
    refine htoward.foldl_miss rfl fun copy hcopy => ?_
    obtain ⟨pixel, hpixel, i, hi, rfl⟩ := (mem_imageCopies hblock).mp hcopy
    rw [Nat.mul_comm] at hi
    have houtside := hk pixel hpixel
    simp only
    omega

/-- **The compactor**, when the scratch holds every surface it reads. -/
theorem compact_spec {scratch dst : Bytes} {sourcePixelCount outputPixelCount bytesPerPixel block
    surfaces : Nat} (hblock : 0 < block) (hpixels : outputPixelCount ≤ sourcePixelCount)
    (hle : bytesPerPixel ≤ surfaces * block)
    (hscratch : surfaces * sourcePixelCount * block ≤ scratch.length)
    (hdst : outputPixelCount * bytesPerPixel ≤ dst.length) :
    ∃ out, compactAtomicOutput scratch sourcePixelCount outputPixelCount bytesPerPixel block dst =
        (outputPixelCount * bytesPerPixel, out) ∧ out.length = dst.length ∧
      ∀ pixel < outputPixelCount, ∀ byte < bytesPerPixel,
        out[pixel * bytesPerPixel + byte]? =
          scratch[sourceOffset sourcePixelCount block pixel byte]? := by
  have hlisted : ∀ pixel ∈ List.range outputPixelCount, pixel < sourcePixelCount ∧
      pixel * bytesPerPixel + bytesPerPixel ≤ dst.length := by
    intro pixel hpixel
    have hpixel := List.mem_range.mp hpixel
    exact ⟨by omega, pixel_bytes_le hdst hpixel⟩
  obtain ⟨out, hrun, hlength, hbytes, -⟩ := gather_spec hblock hlisted hle hscratch 0
  refine ⟨out, ?_, hlength, fun pixel hpixel => hbytes pixel (List.mem_range.mpr hpixel)⟩
  unfold compactAtomicOutput
  rw [if_neg (by omega), hrun, List.length_range, Nat.zero_add]
  rfl

end IreeRocket.TensorLayout
