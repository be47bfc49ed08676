import IreeRocket.Core.Layout
import IreeRocket.Hal.TensorLayout
import Mathlib.Algebra.Group.Nat.Units

/-!
# When a consumer may read a producer's cube in place

A producer's cube is compacted into a dense tensor, and a consumer repacks the tensor into a cube of
its own. `ByteIdentity` says that the repack gives the producer's bytes back at every place the
consumer reads, whatever the cube holds. `chainIdentity` is sound for it, and complete but for the
pairs (`SameRow`) whose atoms happen to lie in one order in both cubes although the geometries differ.
-/

namespace IreeRocket.Driver

open Conv Layout TensorLayout

/-- `iree_status_code_e`. -/
inductive Status
  | internal
  | invalidArgument
  deriving DecidableEq, Repr

inductive InputPackingLayout
  | dense
  | nc1hwc2
  deriving DecidableEq, Repr

structure InputPacking where
  sourcePixelCount : Nat
  packedPixelCount : Nat
  bytesPerPixel : Nat
  packedBytesPerPixel : Nat
  paddingByte : UInt8
  layout : InputPackingLayout
  deriving DecidableEq, Repr

/-- The dense bytes that are packed: the binding's, padded to the packed pixel count. -/
def InputPacking.padded (packing : InputPacking) (dense : Bytes) : Except Status Bytes :=
  if packing.sourcePixelCount ≠ packing.packedPixelCount then do
    let paddedLen ←
      okOr (checkedMul packing.packedPixelCount packing.bytesPerPixel) Status.internal
    return store (List.replicate paddedLen packing.paddingByte) 0 dense
  else .ok dense

/-- The packing of the dense bytes into the scratch. -/
def InputPacking.fill (packing : InputPacking) (dense scratch : Bytes) : Except Status Bytes :=
  match packing.layout with
  | .dense =>
    if dense.length > scratch.length then .error .internal else .ok (store scratch 0 dense)
  | .nc1hwc2 =>
    match packNhwcToNc1hwc2Padded dense packing.packedPixelCount packing.bytesPerPixel
      packing.packedBytesPerPixel scratch with
    | .ok packed => .ok packed.2
    | .error _ => .error .internal

/-- `apply_input_packing`, from the bytes of the input binding. -/
def applyInputPacking (packing : InputPacking) (input scratch : Bytes) : Except Status Bytes := do
  let denseLen ← okOr (checkedMul packing.sourcePixelCount packing.bytesPerPixel) Status.internal
  unlessErr (denseLen ≤ input.length) Status.invalidArgument
  let dense ← packing.padded (input.take denseLen)
  packing.fill dense scratch

/-- What a consumer of a geometry packs its input with. -/
def inputPacking (consumer : CubeGeometry) : InputPacking :=
  { sourcePixelCount := consumer.pixelCount
    packedPixelCount := consumer.surfacePixelCount
    bytesPerPixel := consumer.bytesPerPixel
    packedBytesPerPixel := consumer.packedBytesPerPixel
    paddingByte := 0
    layout := .nc1hwc2 }

/-- The dense tensor a producer's cube is compacted into. -/
def compacted (producer : CubeGeometry) (cube : Bytes) : Bytes :=
  (compactAtomicOutput cube producer.surfacePixelCount producer.pixelCount producer.bytesPerPixel
    featureAtomicBytes (List.replicate (producer.pixelCount * producer.bytesPerPixel) 0)).2

/-- A geometry of `cubeGeometry` whose storage size does not overflow, as the driver requires before
it allocates one. -/
structure Stored (g : CubeGeometry) : Prop where
  built : ∃ kind elementBytes width height channels,
    cubeGeometry kind elementBytes width height channels = .ok g
  storage : ∃ bytes, g.storageBytes = .ok bytes

/-- Bytes of the surfaces of a geometry. -/
def cubeBytes (g : CubeGeometry) : Nat := g.packedSurfaces * g.surfacePixelCount * 16

/-- Repacking the compacted cube gives the producer's own byte at every surface, live pixel and lane
that the consumer reads, whatever the cube and the scratch hold. -/
def ByteIdentity (producer consumer : CubeGeometry) : Prop :=
  ∀ cube scratch : Bytes, cube.length = cubeBytes producer → scratch.length = cubeBytes consumer →
    ∃ out, applyInputPacking (inputPacking consumer) (compacted producer cube) scratch = .ok out ∧
      ∀ s < consumer.packedSurfaces, ∀ pixel < consumer.pixelCount, ∀ lane < 16,
        ∃ byte, cube[cubeOffset consumer.surfacePixelCount s pixel lane]? = some byte ∧
          out[cubeOffset consumer.surfacePixelCount s pixel lane]? = some byte

/-! ### What packing and compacting leave -/

variable {g producer consumer : CubeGeometry}

theorem Stored.wellFormed (h : Stored g) : g.WellFormed := by
  obtain ⟨kind, elementBytes, width, height, channels, hg⟩ := h.built
  exact cubeGeometry_wellFormed hg

theorem Stored.packed_eq (h : Stored g) : g.packedBytesPerPixel = g.packedSurfaces * 16 := by
  have hatoms := h.wellFormed.packed_atoms
  unfold CubeGeometry.packedSurfaces featureAtomBytes
  rw [Nat.ceilDiv_eq_add_pred_div]
  omega

theorem Stored.cubeBytes_lt (h : Stored g) : cubeBytes g < 2 ^ 64 := by
  obtain ⟨bytes, hbytes⟩ := h.storage
  have hproduct := someOr_ok.mp hbytes
  simp only [checkedProduct, Option.bind_eq_some_iff] at hproduct
  obtain ⟨surfaces, hsurfaces, total, htotal, -⟩ := hproduct
  obtain ⟨-, rfl⟩ := checkedMul_some.mp hsurfaces
  obtain ⟨hlt, -⟩ := checkedMul_some.mp htotal
  unfold cubeBytes
  rw [Nat.mul_comm g.packedSurfaces]
  exact hlt

/-- A consumer whose binding is too short packs nothing. -/
theorem applyInputPacking_length {packing : InputPacking} {input scratch out : Bytes}
    (h : applyInputPacking packing input scratch = .ok out) :
    packing.sourcePixelCount * packing.bytesPerPixel ≤ input.length := by
  unfold applyInputPacking at h
  simp only [bind_ok, okOr_ok, unlessErr_ok] at h
  obtain ⟨denseLen, hdenseLen, -, hle, -⟩ := h
  obtain ⟨-, rfl⟩ := checkedMul_some.mp hdenseLen
  exact hle

theorem Stored.surface_bytes_lt (h : Stored g) :
    g.surfacePixelCount * g.bytesPerPixel < 2 ^ 64 := by
  have hle : g.surfacePixelCount * g.bytesPerPixel ≤ cubeBytes g := by
    unfold cubeBytes
    rw [Nat.mul_right_comm, Nat.mul_comm _ g.surfacePixelCount, ← h.packed_eq]
    exact Nat.mul_le_mul_left _ h.wellFormed.bytes_le
  exact hle.trans_lt h.cubeBytes_lt

/-- The padded bytes begin with the binding's. -/
theorem Stored.padded (h : Stored consumer) (input : Bytes)
    (hinput : input.length = consumer.pixelCount * consumer.bytesPerPixel) :
    ∃ dense, (inputPacking consumer).padded input = .ok dense ∧
      consumer.surfacePixelCount * consumer.bytesPerPixel ≤ dense.length ∧
      ∀ k < consumer.pixelCount * consumer.bytesPerPixel, dense[k]? = input[k]? := by
  have hle : consumer.pixelCount * consumer.bytesPerPixel ≤
      consumer.surfacePixelCount * consumer.bytesPerPixel :=
    Nat.mul_le_mul_right _ h.wellFormed.pixel_le
  unfold InputPacking.padded inputPacking
  simp only
  split_ifs with hpixels
  · have hmul : checkedMul consumer.surfacePixelCount consumer.bytesPerPixel =
        some (consumer.surfacePixelCount * consumer.bytesPerPixel) := if_pos h.surface_bytes_lt
    refine ⟨store (List.replicate (consumer.surfacePixelCount * consumer.bytesPerPixel) 0) 0 input,
      ?_, ?_, fun k hk => ?_⟩
    · rw [hmul]
      rfl
    · rw [length_store, List.length_replicate]
    · rw [getElem?_store_mem (by rw [List.length_replicate]; omega) (by omega) (by omega),
        Nat.sub_zero]
  · rw [Decidable.not_not] at hpixels
    exact ⟨input, rfl, by rw [hinput, hpixels], fun _ _ => rfl⟩

/-- What a consumer packs from a binding that is long enough. -/
theorem Stored.repack (h : Stored consumer) {input scratch : Bytes}
    (hinput : consumer.pixelCount * consumer.bytesPerPixel ≤ input.length)
    (hscratch : scratch.length = cubeBytes consumer) :
    ∃ out, applyInputPacking (inputPacking consumer) input scratch = .ok out ∧
      ∀ s < consumer.packedSurfaces, ∀ pixel < consumer.pixelCount, ∀ lane < 16,
        out[cubeOffset consumer.surfacePixelCount s pixel lane]? =
          if s * 16 + lane < consumer.bytesPerPixel then
            input[pixel * consumer.bytesPerPixel + (s * 16 + lane)]?
          else some 0 := by
  have hwell := h.wellFormed
  have hdenseLen : checkedMul consumer.pixelCount consumer.bytesPerPixel =
      some (consumer.pixelCount * consumer.bytesPerPixel) :=
    if_pos ((Nat.mul_le_mul_right _ hwell.pixel_le).trans_lt h.surface_bytes_lt)
  obtain ⟨dense, hpadded, hlength, hsame⟩ := h.padded
    (input.take (consumer.pixelCount * consumer.bytesPerPixel)) (by rw [List.length_take, min_eq_left hinput])
  obtain ⟨out, hpack, -, hbytes⟩ := pack_spec hwell.bytes_pos
    (hwell.bytes_le.trans_eq h.packed_eq) hlength hscratch (hscratch ▸ h.cubeBytes_lt)
  refine ⟨out, ?_, fun s hs pixel hpixel lane hlane => ?_⟩
  · unfold applyInputPacking
    simp only [bind_ok, okOr_ok, unlessErr_ok, exists_const]
    refine ⟨_, hdenseLen, hinput, dense, hpadded, ?_⟩
    unfold InputPacking.fill inputPacking
    simp only
    rw [h.packed_eq, hpack]
  · rw [hbytes s hs pixel (hpixel.trans_le hwell.pixel_le) lane hlane]
    split_ifs with hlive
    · have hin := pixel_bytes_le (le_refl (consumer.pixelCount * consumer.bytesPerPixel)) hpixel
      rw [hsame _ (by omega), List.getElem?_take, if_pos (by omega)]
    · rfl

/-- What a producer's cube compacts into. -/
theorem Stored.compacted_spec (h : Stored producer) {cube : Bytes}
    (hcube : cube.length = cubeBytes producer) :
    (compacted producer cube).length = producer.pixelCount * producer.bytesPerPixel ∧
      ∀ pixel < producer.pixelCount, ∀ byte < producer.bytesPerPixel,
        (compacted producer cube)[pixel * producer.bytesPerPixel + byte]? =
          cube[sourceOffset producer.surfacePixelCount 16 pixel byte]? := by
  have hwell := h.wellFormed
  obtain ⟨out, hrun, hlength, hbytes⟩ := compact_spec (show 0 < 16 by decide)
    hwell.pixel_le (hwell.bytes_le.trans_eq h.packed_eq) hcube.ge
    (show producer.pixelCount * producer.bytesPerPixel ≤
      (List.replicate (producer.pixelCount * producer.bytesPerPixel) (0 : UInt8)).length by simp)
  unfold compacted featureAtomicBytes
  rw [hrun]
  exact ⟨hlength.trans (by simp), hbytes⟩

/-! ### Where the atoms lie -/

/-- The consumer's dense bytes exist, and the producer's cube holds each of them where the consumer's
own cube would. -/
def SameAtoms (producer consumer : CubeGeometry) : Prop :=
  consumer.pixelCount * consumer.bytesPerPixel ≤ producer.pixelCount * producer.bytesPerPixel ∧
    ∀ s pixel lane, s * 16 + lane < consumer.bytesPerPixel → pixel < consumer.pixelCount → lane < 16 →
      sourceOffset producer.surfacePixelCount 16
          ((pixel * consumer.bytesPerPixel + (s * 16 + lane)) / producer.bytesPerPixel)
          ((pixel * consumer.bytesPerPixel + (s * 16 + lane)) % producer.bytesPerPixel) =
        cubeOffset consumer.surfacePixelCount s pixel lane

/-- A byte of the compacted cube, by its index. -/
theorem Stored.compacted_at (h : Stored producer) {cube : Bytes}
    (hcube : cube.length = cubeBytes producer) {d : Nat}
    (hd : d < producer.pixelCount * producer.bytesPerPixel) :
    (compacted producer cube)[d]? =
        cube[sourceOffset producer.surfacePixelCount 16 (d / producer.bytesPerPixel)
          (d % producer.bytesPerPixel)]? ∧
      ∃ byte, (compacted producer cube)[d]? = some byte := by
  obtain ⟨hlength, hbytes⟩ := h.compacted_spec hcube
  have hpixel : d / producer.bytesPerPixel < producer.pixelCount :=
    Nat.div_lt_of_lt_mul (hd.trans_eq (Nat.mul_comm _ _))
  have hbyte : d % producer.bytesPerPixel < producer.bytesPerPixel :=
    Nat.mod_lt _ h.wellFormed.bytes_pos
  have hfound := hbytes _ hpixel _ hbyte
  rw [Nat.div_add_mod'] at hfound
  exact ⟨hfound, _, List.getElem?_eq_getElem (hd.trans_eq hlength.symm)⟩

/-- Over a cube of ones the lanes a repack zeroes differ. -/
theorem ByteIdentity.exact (hc : Stored consumer)
    (h : ByteIdentity producer consumer) :
    consumer.bytesPerPixel = consumer.packedSurfaces * 16 := by
  by_contra hne
  have hlt : consumer.bytesPerPixel < consumer.packedSurfaces * 16 :=
    lt_of_le_of_ne (hc.wellFormed.bytes_le.trans_eq hc.packed_eq) hne
  obtain ⟨out, hrun, hsame⟩ := h (List.replicate (cubeBytes producer) 1)
    (List.replicate (cubeBytes consumer) 0) List.length_replicate List.length_replicate
  obtain ⟨out', hrun', hbytes⟩ := hc.repack (applyInputPacking_length hrun)
    (List.length_replicate (n := cubeBytes consumer) (a := (0 : UInt8)))
  obtain rfl := Except.ok.inj (hrun.symm.trans hrun')
  have hlast : consumer.packedSurfaces - 1 < consumer.packedSurfaces := by omega
  obtain ⟨byte, hcube, hout⟩ := hsame _ hlast 0 hc.wellFormed.pixel_pos 15 (by decide)
  rw [hbytes _ hlast 0 hc.wellFormed.pixel_pos 15 (by decide), if_neg (by omega)] at hout
  obtain rfl := Option.some.inj hout
  have hone := List.eq_of_mem_replicate (List.mem_of_getElem? hcube)
  exact absurd hone (by decide)

/-- A cube with a single one tells where a byte comes from. -/
theorem ByteIdentity.sameAtoms (hp : Stored producer) (hc : Stored consumer)
    (h : ByteIdentity producer consumer) : SameAtoms producer consumer := by
  have hexact := h.exact hc
  obtain ⟨out, hrun, -⟩ := h (List.replicate (cubeBytes producer) 1)
    (List.replicate (cubeBytes consumer) 0) List.length_replicate List.length_replicate
  have hlength : consumer.pixelCount * consumer.bytesPerPixel ≤ _ := applyInputPacking_length hrun
  rw [(hp.compacted_spec List.length_replicate).1] at hlength
  refine ⟨hlength, fun s pixel lane hs hpixel hlane => ?_⟩
  have hsurface : s < consumer.packedSurfaces := by omega
  set k := cubeOffset consumer.surfacePixelCount s pixel lane with hk
  set cube := (List.replicate (cubeBytes producer) (0 : UInt8)).set k 1 with hcube
  have hcube_length : cube.length = cubeBytes producer := by
    rw [hcube, List.length_set, List.length_replicate]
  obtain ⟨out, hrun, hsame⟩ := h cube (List.replicate (cubeBytes consumer) 0) hcube_length
    List.length_replicate
  obtain ⟨out', hrun', hbytes⟩ := hc.repack (applyInputPacking_length hrun)
    (List.length_replicate (n := cubeBytes consumer) (a := (0 : UInt8)))
  obtain rfl := Except.ok.inj (hrun.symm.trans hrun')
  obtain ⟨byte, hbyte, hout⟩ := hsame s hsurface pixel hpixel lane hlane
  have hone : byte = 1 := by
    have hin : k < cube.length := (List.getElem?_eq_some_iff.mp hbyte).1
    rw [hcube, List.getElem?_set_self (by rw [hcube, List.length_set] at hin; exact hin)] at hbyte
    exact (Option.some.inj hbyte).symm
  have hd := pixel_bytes_le hlength hpixel
  rw [hbytes s hsurface pixel hpixel lane hlane, if_pos hs,
    (hp.compacted_at hcube_length (by omega)).1, hcube, hone] at hout
  by_contra hne
  rw [List.getElem?_set_ne (Ne.symm hne)] at hout
  have hzero := List.eq_of_mem_replicate (List.mem_of_getElem? hout)
  exact absurd hzero (by decide)

/-- A whole-atom consumer whose atoms lie at the producer's places reads the producer's bytes. -/
theorem SameAtoms.byteIdentity (hp : Stored producer) (hc : Stored consumer)
    (hexact : consumer.bytesPerPixel = consumer.packedSurfaces * 16)
    (h : SameAtoms producer consumer) : ByteIdentity producer consumer := by
  intro cube scratch hcube hscratch
  obtain ⟨hlength, hatoms⟩ := h
  have hinput := hlength.trans_eq (hp.compacted_spec hcube).1.symm
  obtain ⟨out, hrun, hbytes⟩ := hc.repack hinput hscratch
  refine ⟨out, hrun, fun s hs pixel hpixel lane hlane => ?_⟩
  have hlive : s * 16 + lane < consumer.bytesPerPixel := by omega
  have hd := pixel_bytes_le hlength hpixel
  obtain ⟨hfound, byte, hbyte⟩ := hp.compacted_at hcube
    (show pixel * consumer.bytesPerPixel + (s * 16 + lane) < _ by omega)
  refine ⟨byte, ?_, ?_⟩
  · rw [← hatoms s pixel lane hlive hpixel hlane, ← hfound, hbyte]
  · rw [hbytes s hs pixel hpixel lane hlane, if_pos hlive, hbyte]

/-- The pairs of geometries whose atoms lie at the same places: equal pixels; a consumer of one pixel;
a producer whose surfaces are one pixel apart, or a consumer whose surfaces are, against a cube of one
surface. -/
def Coincide (producer consumer : CubeGeometry) : Prop :=
  let oneStride := producer.surfacePixelCount = consumer.surfacePixelCount ∨ consumer.bytesPerPixel = 16
  (producer.bytesPerPixel = consumer.bytesPerPixel ∧ consumer.pixelCount ≤ producer.pixelCount ∧
      oneStride) ∨
    (consumer.pixelCount = 1 ∧ consumer.bytesPerPixel ≤ producer.bytesPerPixel ∧ oneStride) ∨
    (producer.surfacePixelCount = 1 ∧ consumer.bytesPerPixel = 16 ∧
      consumer.pixelCount * 16 ≤ producer.bytesPerPixel) ∨
    (producer.bytesPerPixel = 16 ∧ consumer.surfacePixelCount = 1 ∧
      consumer.bytesPerPixel ≤ producer.pixelCount * 16)

instance (producer consumer : CubeGeometry) : Decidable (Coincide producer consumer) :=
  inferInstanceAs (Decidable (_ ∨ _ ∨ _ ∨ _))

/-- The place of an atom in the producer's surfaces, from the place of its byte. -/
theorem atom_eq {stride pixels pixel s lane byte sourcePixel : Nat} (hlane : lane < 16)
    (h : sourceOffset stride 16 sourcePixel byte = cubeOffset pixels s pixel lane) :
    byte % 16 = lane ∧ byte / 16 * stride + sourcePixel = s * pixels + pixel := by
  unfold sourceOffset cubeOffset at h
  omega

theorem SameAtoms.coincide (hp : producer.WellFormed) (hc : consumer.WellFormed)
    (hexact : consumer.bytesPerPixel % 16 = 0) (h : SameAtoms producer consumer) :
    Coincide producer consumer := by
  obtain ⟨hlength, hatoms⟩ := h
  obtain ⟨atoms, hwidth⟩ := Nat.dvd_of_mod_eq_zero hexact
  have hpos := hc.bytes_pos
  rw [hwidth] at hlength hatoms hpos
  unfold Coincide
  simp only [hwidth]
  by_cases hle : 16 * atoms ≤ producer.bytesPerPixel
  · -- the first pixel's second surface fixes the stride
    have hstride : producer.surfacePixelCount = consumer.surfacePixelCount ∨ 16 * atoms = 16 := by
      by_cases hone : atoms = 1
      · exact .inr (by omega)
      · have h1 := hatoms 1 0 0 (by omega) hc.pixel_pos (by decide)
        rw [Nat.zero_mul, Nat.zero_add, Nat.div_eq_of_lt (by omega), Nat.mod_eq_of_lt (by omega)] at h1
        have := (atom_eq (by decide) h1).2
        exact .inl (by simpa using this)
    by_cases hpixel : consumer.pixelCount = 1
    · exact .inr (.inl ⟨hpixel, hle, hstride⟩)
    · rcases hle.lt_or_eq with hlt | heq
      · -- the second pixel begins inside the producer's first
        have h1 := hatoms 0 1 0 (by omega) (by have := hc.pixel_pos; omega) (by decide)
        rw [Nat.one_mul, Nat.zero_mul, Nat.zero_add, Nat.add_zero, Nat.div_eq_of_lt hlt,
          Nat.mod_eq_of_lt hlt] at h1
        have hatom := (atom_eq (by decide) h1).2
        rw [Nat.mul_div_cancel_left _ (by decide), Nat.add_zero, Nat.zero_mul, Nat.zero_add] at hatom
        obtain ⟨hone, hsurface⟩ := mul_eq_one.mp hatom
        have hpixels : producer.pixelCount = 1 := by
          have := hp.pixel_pos
          have := hp.pixel_le
          omega
        refine .inr (.inr (.inl ⟨hsurface, by omega, ?_⟩))
        rw [hpixels, Nat.one_mul, hone] at hlength
        exact hlength
      · refine .inl ⟨heq.symm, ?_, hstride⟩
        rw [← heq] at hlength
        exact Nat.le_of_mul_le_mul_right hlength hpos
  · -- the producer's second pixel lies inside the consumer's first
    have hlt := Nat.lt_of_not_le hle
    have h1 := hatoms (producer.bytesPerPixel / 16) 0 (producer.bytesPerPixel % 16) (by omega)
      hc.pixel_pos (Nat.mod_lt _ (by decide))
    have hbyte : producer.bytesPerPixel / 16 * 16 + producer.bytesPerPixel % 16 =
        producer.bytesPerPixel := Nat.div_add_mod' _ _
    rw [Nat.zero_mul, Nat.zero_add, hbyte, Nat.div_self hp.bytes_pos, Nat.mod_self] at h1
    obtain ⟨hlane, hatom⟩ := atom_eq (Nat.mod_lt _ (by decide)) h1
    have hsurface : producer.bytesPerPixel / 16 * consumer.surfacePixelCount = 1 := by omega
    obtain ⟨hone, hstride⟩ := mul_eq_one.mp hsurface
    have hpixels : consumer.pixelCount = 1 := by
      have := hc.pixel_pos
      have := hc.pixel_le
      omega
    have hproducer : producer.bytesPerPixel = 16 := by omega
    refine .inr (.inr (.inr ⟨hproducer, hstride, ?_⟩))
    rw [hpixels, hproducer, Nat.one_mul] at hlength
    exact hlength

theorem Coincide.sameAtoms (hp : producer.WellFormed) (hc : consumer.WellFormed)
    (h : Coincide producer consumer) : SameAtoms producer consumer := by
  have hone_surface : ∀ {s lane}, s * 16 + lane < consumer.bytesPerPixel →
      (producer.surfacePixelCount = consumer.surfacePixelCount ∨ consumer.bytesPerPixel = 16) →
      s * producer.surfacePixelCount = s * consumer.surfacePixelCount := by
    rintro s lane hs (hstride | hwidth)
    · rw [hstride]
    · obtain rfl : s = 0 := by omega
      rw [Nat.zero_mul, Nat.zero_mul]
  rcases h with ⟨hwidth, hpixels, hstride⟩ | ⟨hpixels, hwidth, hstride⟩ | ⟨hsurface, hwidth, hle⟩ |
    ⟨hwidth, hsurface, hle⟩
  · refine ⟨by rw [hwidth]; exact Nat.mul_le_mul_right _ hpixels, ?_⟩
    intro s pixel lane hs hpixel hlane
    have hstep := hone_surface hs hstride
    rw [hwidth, Nat.mul_comm pixel, Nat.mul_add_div hc.bytes_pos, Nat.mul_add_mod,
      Nat.div_eq_of_lt hs, Nat.mod_eq_of_lt hs, Nat.add_zero, sourceOffset_chunk hlane, hstep]
    rfl
  · refine ⟨?_, ?_⟩
    · rw [hpixels, Nat.one_mul]
      exact hwidth.trans (Nat.le_mul_of_pos_left _ hp.pixel_pos)
    · intro s pixel lane hs hpixel hlane
      obtain rfl : pixel = 0 := by omega
      have hstep := hone_surface hs hstride
      rw [Nat.zero_mul, Nat.zero_add, Nat.div_eq_of_lt (by omega), Nat.mod_eq_of_lt (by omega),
        sourceOffset_chunk hlane, hstep]
      rfl
  · refine ⟨?_, ?_⟩
    · rw [hwidth]
      exact hle.trans (Nat.le_mul_of_pos_left _ hp.pixel_pos)
    · intro s pixel lane hs hpixel hlane
      obtain rfl : s = 0 := by omega
      rw [Nat.zero_mul, Nat.zero_add, hwidth, Nat.div_eq_of_lt (by omega),
        Nat.mod_eq_of_lt (by omega), sourceOffset_chunk hlane, hsurface]
      unfold cubeOffset
      omega
  · have hpixels : consumer.pixelCount = 1 := by
      have := hc.pixel_pos
      have := hc.pixel_le
      omega
    refine ⟨?_, ?_⟩
    · rw [hpixels, Nat.one_mul, hwidth]
      exact hle
    · intro s pixel lane hs hpixel hlane
      obtain rfl : pixel = 0 := by omega
      have hlast : (s * 16 + lane) % 16 / 16 = 0 := Nat.div_eq_of_lt (Nat.mod_lt _ (by decide))
      rw [Nat.zero_mul, Nat.zero_add, hwidth, hsurface]
      unfold sourceOffset cubeOffset
      rw [hlast, Nat.zero_mul]
      omega

/-- **What `chainIdentity` decides.** A repack of the compacted cube gives the producer's bytes back,
whatever the padding lanes hold, exactly when `chainIdentity` accepts, or when the consumer reads whole
atoms without padding channels and the atoms coincide. -/
theorem byteIdentity_iff (hp : Stored producer) (hc : Stored consumer) :
    ByteIdentity producer consumer ↔ chainIdentity producer consumer = .ok () ∨
      (consumer.canChain = .ok () ∧ Coincide producer consumer) := by
  constructor
  · intro h
    have hexact := h.exact hc
    have hwhole : consumer.bytesPerPixel % 16 = 0 := by omega
    refine .inr ⟨canChain_ok.mpr ⟨⟨hc.wellFormed.bytes_pos.ne', hwhole⟩, ?_⟩, ?_⟩
    · rw [hc.packed_eq, hexact]
    · exact (h.sameAtoms hp hc).coincide hp.wellFormed hc.wellFormed hwhole
  · rintro (hidentity | ⟨hchain, hcoincide⟩)
    · obtain ⟨⟨-, hpacked⟩, hpixels, hstride, hwidth⟩ := chainIdentity_ok.mp hidentity
      have hcoincide : Coincide producer consumer := .inl ⟨hwidth, hpixels.ge, .inl hstride⟩
      exact (hcoincide.sameAtoms hp.wellFormed hc.wellFormed).byteIdentity hp hc
        (hpacked ▸ hc.packed_eq)
    · obtain ⟨-, hpacked⟩ := canChain_ok.mp hchain
      exact (hcoincide.sameAtoms hp.wellFormed hc.wellFormed).byteIdentity hp hc
        (hpacked ▸ hc.packed_eq)

/-- Sixteen int8 channels of a 2x2 image, as a convolution reads them. -/
def fullAtom : CubeGeometry :=
  { pixelCount := 4, surfacePixelCount := 4, bytesPerPixel := 16, packedBytesPerPixel := 16 }

theorem fullAtom_stored : Stored fullAtom where
  built := ⟨.conv, 1, 2, 2, 16, rfl⟩
  storage := ⟨64, rfl⟩

theorem byteIdentity_fullAtom : ByteIdentity fullAtom fullAtom :=
  (byteIdentity_iff fullAtom_stored fullAtom_stored).mpr (.inl rfl)

/-- The lanes past a pixel's channels are zero. -/
def ZeroLanes (g : CubeGeometry) (cube : Bytes) : Prop :=
  ∀ s < g.packedSurfaces, ∀ pixel < g.pixelCount, ∀ lane < 16, g.bytesPerPixel ≤ s * 16 + lane →
    cube[cubeOffset g.surfacePixelCount s pixel lane]? = some 0

/-- `ByteIdentity` over cubes with zero padding lanes only. -/
def ZeroLaneIdentity (producer consumer : CubeGeometry) : Prop :=
  ∀ cube scratch : Bytes, cube.length = cubeBytes producer → scratch.length = cubeBytes consumer →
    ZeroLanes producer cube →
    ∃ out, applyInputPacking (inputPacking consumer) (compacted producer cube) scratch = .ok out ∧
      ∀ s < consumer.packedSurfaces, ∀ pixel < consumer.pixelCount, ∀ lane < 16,
        ∃ byte, cube[cubeOffset consumer.surfacePixelCount s pixel lane]? = some byte ∧
          out[cubeOffset consumer.surfacePixelCount s pixel lane]? = some byte

/-- One int8 channel of one pixel. -/
def oneLane : CubeGeometry :=
  { pixelCount := 1, surfacePixelCount := 1, bytesPerPixel := 1, packedBytesPerPixel := 16 }

theorem oneLane_stored : Stored oneLane where
  built := ⟨.conv, 1, 1, 1, 1, rfl⟩
  storage := ⟨16, rfl⟩

theorem oneLane_identity : ZeroLaneIdentity oneLane oneLane := by
  intro cube scratch hcube hscratch hzero
  obtain ⟨hlength, -⟩ := oneLane_stored.compacted_spec hcube
  obtain ⟨out, hrun, hbytes⟩ := oneLane_stored.repack hlength.ge hscratch
  obtain ⟨hfound, byte, hbyte⟩ := oneLane_stored.compacted_at hcube (show 0 < 1 by decide)
  refine ⟨out, hrun, fun s hs pixel hpixel lane hlane => ?_⟩
  obtain rfl : s = 0 := Nat.lt_one_iff.mp hs
  obtain rfl : pixel = 0 := Nat.lt_one_iff.mp hpixel
  rw [hbytes 0 hs 0 hpixel lane hlane]
  by_cases hlive : lane = 0
  · subst hlive
    exact ⟨byte, hfound.symm.trans hbyte, hbyte⟩
  · refine ⟨0, hzero 0 hs 0 hpixel lane hlane ?_, if_neg ?_⟩
    · show 1 ≤ 0 * 16 + lane
      omega
    · show ¬ 0 * 16 + lane < 1
      omega

/-- **A refusal over zero padding lanes.** A partial atom is refused although the repack gives every
byte back. -/
theorem partial_atom_refused : ¬ ∀ producer consumer : CubeGeometry, Stored producer →
    Stored consumer → (chainIdentity producer consumer = .ok () ↔ ZeroLaneIdentity producer consumer) := by
  intro h
  have hok := (h oneLane oneLane oneLane_stored oneLane_stored).mpr oneLane_identity
  exact absurd hok (by decide)

end IreeRocket.Driver
