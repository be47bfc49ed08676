import IreeRocket.Hal.TensorLayout

/-!
# Feature tensors survive the cube

The packer zeroes only what its copies will not reach: the surfaces past the last written one, and
the lanes past a pixel's last byte. `feature_round_trip` says that this leaves no stale byte, and that
the compactor finds every byte of the dense image where the packer put it, at any surface pitch.
-/

namespace IreeRocket.TensorLayout

/-! ### The bytes of the surfaces -/

/-- The offset holds a byte of the dense image. -/
def Logical (pixelCount bytesPerPixel k : Nat) : Prop :=
  ∃ pixel < pixelCount, ∃ byte < bytesPerPixel, k = cubeOffset pixelCount (byte / 16) pixel (byte % 16)

/-- Every byte of the surfaces has a surface, a pixel and a lane. -/
theorem exists_cubeOffset {pixelCount surfaces k : Nat} (hk : k < surfaces * pixelCount * 16) :
    ∃ s < surfaces, ∃ pixel < pixelCount, ∃ lane < 16, k = cubeOffset pixelCount s pixel lane := by
  have hatom : k / 16 < surfaces * pixelCount := by omega
  have hpos : 0 < pixelCount := by
    rcases Nat.eq_zero_or_pos pixelCount with rfl | hpos
    · omega
    · exact hpos
  refine ⟨k / 16 / pixelCount, ?_, k / 16 % pixelCount, Nat.mod_lt _ hpos, k % 16,
    Nat.mod_lt _ (by decide), ?_⟩
  · exact (Nat.div_lt_iff_lt_mul hpos).mpr hatom
  · unfold cubeOffset
    rw [Nat.div_add_mod']
    omega

/-- A lane past the pixel's bytes is no byte of the image. -/
theorem logical_cubeOffset {pixelCount bytesPerPixel s pixel lane : Nat} (hpixel : pixel < pixelCount)
    (hlane : lane < 16) :
    Logical pixelCount bytesPerPixel (cubeOffset pixelCount s pixel lane) ↔
      s * 16 + lane < bytesPerPixel := by
  constructor
  · rintro ⟨pixel', hpixel', byte, hbyte, heq⟩
    obtain ⟨-, hs, hlane_eq⟩ := cubeOffset_pixel (s := s) hpixel hlane
    obtain ⟨-, hs', hlane_eq'⟩ :=
      cubeOffset_pixel (s := byte / 16) hpixel' (Nat.mod_lt byte (show 0 < 16 by decide))
    rw [heq] at hs hlane_eq
    omega
  · intro hlive
    refine ⟨pixel, hpixel, s * 16 + lane, hlive, ?_⟩
    congr 1 <;> omega

/-! ### What packing is -/

/-- What the packer leaves in `out`, where it was given `packed`. -/
structure PacksFeature (dense packed out : Bytes) (pixelCount bytesPerPixel packedLen : Nat) : Prop where
  length_eq : out.length = packed.length
  logical : ∀ pixel < pixelCount, ∀ byte < bytesPerPixel,
    out[cubeOffset pixelCount (byte / 16) pixel (byte % 16)]? = dense[pixel * bytesPerPixel + byte]?
  zero : ∀ k < packedLen, ¬ Logical pixelCount bytesPerPixel k → out[k]? = some 0
  surplus : ∀ k, packedLen ≤ k → out[k]? = packed[k]?

/-- Every slice the packer's visits take lies in its tensor: none of its copies panics. -/
def VisitsInRange (pixelCount bytesPerPixel denseLength packedLen : Nat) : Prop :=
  ∀ visit ∈ packVisits pixelCount bytesPerPixel,
    visit.1 * bytesPerPixel + visit.2.1 + visit.2.2 ≤ denseLength ∧
      visit.2.1 / featureAtomicBytes * pixelCount * featureAtomicBytes +
          visit.1 * featureAtomicBytes + featureAtomicBytes ≤ packedLen

theorem packVisits_inRange {pixelCount bytesPerPixel denseLength packedLen : Nat}
    (hdense : pixelCount * bytesPerPixel ≤ denseLength)
    (hpacked : bytesPerPixel ⌈/⌉ 16 * pixelCount * 16 ≤ packedLen) :
    VisitsInRange pixelCount bytesPerPixel denseLength packedLen := by
  intro visit hvisit
  obtain ⟨pixel, i, hpixel, hi, rfl⟩ := mem_packVisits.mp hvisit
  have hpixelBytes := pixel_bytes_le hdense hpixel
  have hlast := cubeOffset_lt ((lt_ceilDiv_iff (by decide)).mpr hi) hpixel (show 15 < 16 by decide)
  have hsurface : i * 16 / 16 = i := Nat.mul_div_cancel i (by decide)
  refine ⟨?_, ?_⟩
  · dsimp only
    omega
  · unfold featureAtomicBytes
    dsimp only
    rw [hsurface]
    unfold cubeOffset at hlast
    rw [Nat.add_mul] at hlast
    omega

theorem packs_of_bytes {dense packed out : Bytes} {pixelCount bytesPerPixel surfaces : Nat}
    (hle : bytesPerPixel ≤ surfaces * 16) (hlength : out.length = packed.length)
    (hbytes : ∀ s < surfaces, ∀ pixel < pixelCount, ∀ lane < 16,
      out[cubeOffset pixelCount s pixel lane]? =
        if s * 16 + lane < bytesPerPixel then dense[pixel * bytesPerPixel + (s * 16 + lane)]?
        else some 0)
    (hsurplus : ∀ k, surfaces * pixelCount * 16 ≤ k → out[k]? = packed[k]?) :
    PacksFeature dense packed out pixelCount bytesPerPixel (surfaces * pixelCount * 16) where
  length_eq := hlength
  logical pixel hpixel byte hbyte := by
    have hbyte_eq : byte / 16 * 16 + byte % 16 = byte := Nat.div_add_mod' byte 16
    rw [hbytes _ (by omega) _ hpixel _ (Nat.mod_lt _ (by decide)), hbyte_eq, if_pos hbyte]
  zero k hk hnot := by
    obtain ⟨s, hs, pixel, hpixel, lane, hlane, rfl⟩ := exists_cubeOffset hk
    rw [logical_cubeOffset hpixel hlane] at hnot
    rw [hbytes s hs pixel hpixel lane hlane, if_neg hnot]
  surplus := hsurplus

/-- The packed bytes depend on the destination past the surfaces only. -/
theorem PacksFeature.unique {dense packed packed' out out' : Bytes}
    {pixelCount bytesPerPixel packedLen : Nat}
    (h : PacksFeature dense packed out pixelCount bytesPerPixel packedLen)
    (h' : PacksFeature dense packed' out' pixelCount bytesPerPixel packedLen)
    (hrest : ∀ k, packedLen ≤ k → packed[k]? = packed'[k]?) : out = out' := by
  apply List.ext_getElem?
  intro k
  rcases Nat.lt_or_ge k packedLen with hk | hk
  · by_cases hlogical : Logical pixelCount bytesPerPixel k
    · obtain ⟨pixel, hpixel, byte, hbyte, rfl⟩ := hlogical
      rw [h.logical pixel hpixel byte hbyte, h'.logical pixel hpixel byte hbyte]
    · rw [h.zero k hk hlogical, h'.zero k hk hlogical]
  · rw [h.surplus k hk, h'.surplus k hk, hrest k hk]

/-! ### The round trip -/

theorem getElem?_zeroed {packed : Bytes} {length k : Nat} (hk : length ≤ k) : (zeroed packed length)[k]? = packed[k]? := by
  unfold zeroed
  rw [List.getElem?_append_right (by rwa [List.length_replicate]), List.length_replicate,
    List.getElem?_drop, Nat.add_sub_cancel' hk]

/-- Bytes found pixel by pixel are the dense bytes. -/
theorem take_eq_of_pixels {dense back : Bytes} {pixels bytesPerPixel : Nat}
    (h : ∀ pixel < pixels, ∀ byte < bytesPerPixel,
      back[pixel * bytesPerPixel + byte]? = dense[pixel * bytesPerPixel + byte]?) :
    back.take (pixels * bytesPerPixel) = dense.take (pixels * bytesPerPixel) := by
  apply List.ext_getElem?
  intro k
  rcases Nat.lt_or_ge k (pixels * bytesPerPixel) with hk | hk
  · have hpos : 0 < bytesPerPixel := Nat.pos_of_ne_zero (by rintro rfl; omega)
    have hk_eq : k / bytesPerPixel * bytesPerPixel + k % bytesPerPixel = k := Nat.div_add_mod' _ _
    have hfound := h (k / bytesPerPixel) ((Nat.div_lt_iff_lt_mul hpos).mpr hk) (k % bytesPerPixel)
      (Nat.mod_lt _ hpos)
    rw [hk_eq] at hfound
    rw [List.getElem?_take_of_lt hk, List.getElem?_take_of_lt hk, hfound]
  · rw [List.getElem?_take_eq_none hk, List.getElem?_take_eq_none hk]

/-- The packer fills the surfaces of `pixelCount` pixels of `packedBytesPerPixel` bytes as if it had
zeroed them first, and compacting the first `outputPixels` of them gives the dense bytes back. -/
def RoundTrips (dense packed dst : Bytes)
    (pixelCount outputPixels bytesPerPixel packedBytesPerPixel : Nat) : Prop :=
  ∃ packedLen out back, nc1hwc2StorageSize pixelCount packedBytesPerPixel = .ok packedLen ∧
    packNhwcToNc1hwc2Padded dense pixelCount bytesPerPixel packedBytesPerPixel packed =
      .ok (packedLen, out) ∧
    PacksFeature dense packed out pixelCount bytesPerPixel packedLen ∧
    VisitsInRange pixelCount bytesPerPixel dense.length packedLen ∧
    packNhwcToNc1hwc2Padded dense pixelCount bytesPerPixel packedBytesPerPixel
      (zeroed packed packedLen) = .ok (packedLen, out) ∧
    compactAtomicOutput out pixelCount outputPixels bytesPerPixel featureAtomicBytes dst =
      (outputPixels * bytesPerPixel, back) ∧
    back.take (outputPixels * bytesPerPixel) = dense.take (outputPixels * bytesPerPixel)

/-- **Packing and compacting a feature tensor gives it back.** Into any destination that holds the
surfaces: the packer fills exactly the storage size, zeroes every byte of it that is no byte of the
image, and leaves what it would have left had it zeroed everything first; and the compactor, at the
packer's pitch and for as many pixels as are asked of it, returns the dense bytes. -/
theorem feature_round_trip {dense packed dst : Bytes}
    {pixelCount outputPixels bytesPerPixel packedBytesPerPixel : Nat}
    (hpos : 0 < packedBytesPerPixel) (hle : bytesPerPixel ≤ packedBytesPerPixel)
    (hdense : pixelCount * bytesPerPixel ≤ dense.length)
    (hpacked : packedBytesPerPixel ⌈/⌉ 16 * pixelCount * 16 ≤ packed.length)
    (hfits : packed.length < 2 ^ 64) (hpixels : outputPixels ≤ pixelCount)
    (hdst : outputPixels * bytesPerPixel ≤ dst.length) :
    RoundTrips dense packed dst pixelCount outputPixels bytesPerPixel packedBytesPerPixel := by
  have hround : bytesPerPixel ≤ packedBytesPerPixel ⌈/⌉ 16 * 16 :=
    hle.trans (le_ceilDiv_mul _ (by decide))
  obtain ⟨out, hrun, hlength, hbytes, hsurplus⟩ := pack_fills hpos hle hdense hpacked hfits
  have hpacks := packs_of_bytes hround hlength hbytes hsurplus
  have hzeroed := length_zeroed hpacked
  obtain ⟨out', hrun', hlength', hbytes', hsurplus'⟩ :=
    pack_fills hpos hle hdense (hpacked.trans_eq hzeroed.symm) (hzeroed.trans_lt hfits)
  have hpacks' := packs_of_bytes hround hlength' hbytes' hsurplus'
  obtain rfl : out' = out :=
    hpacks'.unique hpacks fun k hk => getElem?_zeroed hk
  obtain ⟨back, hcompact, -, hback⟩ := compact_spec (show 0 < 16 by decide)
    hpixels hround (hpacked.trans_eq hlength.symm) hdst
  refine ⟨_, out', back, nc1hwc2StorageSize_ok hpos (hpacked.trans_lt hfits), hrun, hpacks,
    packVisits_inRange hdense (Nat.mul_le_mul_right _ (Nat.mul_le_mul_right _ (ceilDiv_mono 16 hle))),
    hrun', hcompact, take_eq_of_pixels fun pixel hpixel byte hbyte => ?_⟩
  rw [hback pixel hpixel byte hbyte]
  exact hpacks.logical pixel (by omega) byte hbyte

/-- Two pixels of three bytes in surfaces wide enough for twenty, over a stale destination. -/
theorem feature_round_trip_twoPixels :
    RoundTrips [1, 2, 3, 4, 5, 6] (List.replicate 70 9) (List.replicate 6 0) 2 2 3 20 :=
  feature_round_trip (by decide) (by decide) (by decide) (by decide) (by decide) (by decide) (by decide)

end IreeRocket.TensorLayout
