import IreeRocket.Core.Weights

/-!
# The feature-cube layout contract

The geometry of an `NC1HWC2` cube as a pure function of what the compiler knows, and the test under
which one dispatch may read another's cube in place (`chainIdentity`). A cube is a stack of surfaces,
each surface one 16-byte atom a pixel; a reader pads the channels of a pixel to its own unit, and the
PPU strides its surfaces by the pixel count rounded up to four.
-/

namespace IreeRocket.Layout

open Conv

/-- Which unit reads or writes the cube. -/
inductive CubeKind
  | conv
  | matmul
  | pooling
  | elementwise
  deriving DecidableEq, Repr

def CubeKind.isPpu : CubeKind → Bool
  | pooling => true
  | _ => false

/-- The four numbers a producer and a consumer must agree on. -/
structure CubeGeometry where
  pixelCount : Nat
  surfacePixelCount : Nat
  bytesPerPixel : Nat
  packedBytesPerPixel : Nat
  deriving DecidableEq, Repr

/-- Why a consumer cannot read a producer's cube in place. -/
inductive ChainRefusal
  | partialAtom (bytesPerPixel : Nat)
  | consumerPadsChannels (bytesPerPixel packedBytesPerPixel : Nat)
  | pixelCount (producer consumer : Nat)
  | surfaceStride (producer consumer : Nat)
  | pixelWidth (producer consumer : Nat)
  deriving DecidableEq, Repr

/-- `a.checked_next_multiple_of(b)` at a width of `bits`. -/
def checkedNextMultipleOf (bits a b : Nat) : Option Nat :=
  if nextMultipleOf a b < 2 ^ bits then some (nextMultipleOf a b) else none

def lanesPerAtom (elementBytes : Nat) : Nat := featureAtomBytes / max elementBytes 1

/-- Channels the reader pads a pixel to: 16 lanes, or whole atoms at the PPU. -/
def packedChannels (kind : CubeKind) (elementBytes channels : Nat) : Option Nat :=
  if kind.isPpu then checkedNextMultipleOf 32 channels (lanesPerAtom elementBytes)
  else checkedNextMultipleOf 32 (max channels 16) 16

/-- The geometry of a `width x height x channels` feature map as `kind` reads or writes it. -/
def cubeGeometry (kind : CubeKind) (elementBytes width height channels : Nat) :
    Planner CubeGeometry := do
  refuseUnless (elementBytes ≠ 0 ∧ featureAtomBytes % elementBytes = 0) .invalidShape
    s!"element width {elementBytes} bytes does not divide a 16-byte feature atom"
  refuseUnless (width ≠ 0 ∧ height ≠ 0 ∧ channels ≠ 0) .invalidShape
    s!"feature map {width}x{height}x{channels} has a zero extent"
  let overflow := s!"feature map {width}x{height}x{channels} overflows usize"
  let pixelCount ← someOr (checkedMul width height) .hardwareLimit overflow
  let surfacePixelCount ←
    someOr (if kind.isPpu then checkedNextMultipleOf 64 pixelCount 4 else some pixelCount)
      .hardwareLimit overflow
  let bytesPerPixel ← someOr (checkedMul channels elementBytes) .hardwareLimit overflow
  let packedBytesPerPixel ←
    someOr ((packedChannels kind elementBytes channels).bind fun lanes => checkedMul lanes elementBytes)
      .hardwareLimit overflow
  return { pixelCount, surfacePixelCount, bytesPerPixel, packedBytesPerPixel }

namespace CubeGeometry

def isWholeAtom (g : CubeGeometry) : Bool :=
  g.bytesPerPixel != 0 && g.bytesPerPixel % featureAtomBytes == 0

def isExact (g : CubeGeometry) : Bool :=
  g.isWholeAtom && g.packedBytesPerPixel == g.bytesPerPixel

def packedSurfaces (g : CubeGeometry) : Nat := g.packedBytesPerPixel ⌈/⌉ featureAtomBytes

def storageBytes (g : CubeGeometry) : Planner Nat :=
  someOr (checkedProduct g.surfacePixelCount [g.packedSurfaces, featureAtomBytes]) .hardwareLimit
    "feature cube storage size overflows usize"

def denseBytes (g : CubeGeometry) : Planner Nat :=
  someOr (checkedMul g.pixelCount g.bytesPerPixel) .hardwareLimit
    "dense feature map size overflows usize"

/-- Whether this geometry could read any producer's cube in place. -/
def canChain (g : CubeGeometry) : Except ChainRefusal Unit := do
  unlessErr g.isWholeAtom (.partialAtom g.bytesPerPixel)
  unlessErr (g.packedBytesPerPixel = g.bytesPerPixel)
    (.consumerPadsChannels g.bytesPerPixel g.packedBytesPerPixel)

end CubeGeometry

/-- Whether `consumer` may read `producer`'s cube in place of repacking its own. -/
def chainIdentity (producer consumer : CubeGeometry) : Except ChainRefusal Unit := do
  consumer.canChain
  unlessErr (producer.pixelCount = consumer.pixelCount)
    (.pixelCount producer.pixelCount consumer.pixelCount)
  unlessErr (producer.surfacePixelCount = consumer.surfacePixelCount)
    (.surfaceStride producer.surfacePixelCount consumer.surfacePixelCount)
  unlessErr (producer.bytesPerPixel = consumer.bytesPerPixel)
    (.pixelWidth producer.bytesPerPixel consumer.bytesPerPixel)

/-- What the compiler declared about one dispatch's layout. -/
structure DispatchLayout where
  packedInputs : Nat
  packedReaders : Nat
  deriving DecidableEq, Repr

namespace DispatchLayout

def readersShift : Nat := 16

def fromWord (word : Nat) : DispatchLayout :=
  { packedInputs := word &&& 0xffff, packedReaders := (word >>> readersShift) % 2 ^ 16 }

def toWord (layout : DispatchLayout) : Nat :=
  layout.packedInputs ||| (layout.packedReaders <<< readersShift)

/-- Whether input binding `index` was declared to read its producer's cube in place. -/
def inputPacked (layout : DispatchLayout) (index : Nat) : Bool :=
  index < 16 && layout.packedInputs.testBit index

end DispatchLayout

/-! ### What each function establishes -/

theorem checkedNextMultipleOf_some {bits a b n : Nat} :
    checkedNextMultipleOf bits a b = some n ↔ nextMultipleOf a b < 2 ^ bits ∧ n = nextMultipleOf a b := by
  unfold checkedNextMultipleOf
  split_ifs with h
  · simp [h, eq_comm]
  · simp [h]

theorem checkedMul_some {a b n : Nat} : checkedMul a b = some n ↔ a * b < 2 ^ 64 ∧ n = a * b := by
  unfold checkedMul
  by_cases h : a * b < 2 ^ 64
  · rw [if_pos h, Option.some.injEq, eq_comm]
    exact (and_iff_right h).symm
  · rw [if_neg h]
    exact ⟨fun hnone => (nomatch hnone), fun hn => absurd hn.1 h⟩

/-- What every geometry of `cubeGeometry` satisfies. -/
structure CubeGeometry.WellFormed (g : CubeGeometry) : Prop where
  pixel_pos : 0 < g.pixelCount
  pixel_le : g.pixelCount ≤ g.surfacePixelCount
  bytes_pos : 0 < g.bytesPerPixel
  bytes_le : g.bytesPerPixel ≤ g.packedBytesPerPixel
  packed_atoms : g.packedBytesPerPixel % 16 = 0

/-- The lanes of a padded pixel hold its channels and fill whole atoms. -/
theorem packedChannels_some {kind : CubeKind} {elementBytes channels lanes : Nat}
    (helement : elementBytes ≠ 0 ∧ featureAtomBytes % elementBytes = 0)
    (h : packedChannels kind elementBytes channels = some lanes) :
    channels ≤ lanes ∧ (lanes * elementBytes) % 16 = 0 := by
  obtain ⟨hpos, hdvd⟩ := helement
  unfold packedChannels at h
  split_ifs at h
  · obtain ⟨-, rfl⟩ := checkedNextMultipleOf_some.mp h
    have hlanes : lanesPerAtom elementBytes * elementBytes = 16 := by
      unfold lanesPerAtom
      rw [max_eq_left (by omega)]
      exact Nat.div_mul_cancel (Nat.dvd_of_mod_eq_zero hdvd)
    have hlanes_pos : 0 < lanesPerAtom elementBytes := by
      rcases Nat.eq_zero_or_pos (lanesPerAtom elementBytes) with h0 | h0
      · simp [h0] at hlanes
      · exact h0
    refine ⟨le_nextMultipleOf channels hlanes_pos, ?_⟩
    unfold nextMultipleOf
    rw [Nat.mul_assoc, hlanes]
    exact Nat.mul_mod_left _ _
  · obtain ⟨-, rfl⟩ := checkedNextMultipleOf_some.mp h
    refine ⟨(le_max_left _ _).trans (le_nextMultipleOf _ (by decide)), ?_⟩
    unfold nextMultipleOf
    rw [Nat.mul_assoc, Nat.mul_comm 16, ← Nat.mul_assoc]
    exact Nat.mul_mod_left _ _

theorem cubeGeometry_ok {kind : CubeKind} {elementBytes width height channels : Nat}
    {g : CubeGeometry} (h : cubeGeometry kind elementBytes width height channels = .ok g) :
    (elementBytes ≠ 0 ∧ featureAtomBytes % elementBytes = 0) ∧
      (width ≠ 0 ∧ height ≠ 0 ∧ channels ≠ 0) ∧ g.pixelCount = width * height ∧
      g.surfacePixelCount =
        (if kind.isPpu then nextMultipleOf (width * height) 4 else width * height) ∧
      g.bytesPerPixel = channels * elementBytes ∧
      ∃ lanes, packedChannels kind elementBytes channels = some lanes ∧
        g.packedBytesPerPixel = lanes * elementBytes := by
  unfold cubeGeometry at h
  simp only [bind_ok, refuseUnless_ok, someOr_ok, pure_ok, exists_const] at h
  obtain ⟨helement, hextents, pixels, hpixels, surface, hsurface, bytes, hbytes, packed, hpacked,
    rfl⟩ := h
  obtain ⟨-, rfl⟩ := checkedMul_some.mp hpixels
  obtain ⟨-, rfl⟩ := checkedMul_some.mp hbytes
  obtain ⟨lanes, hlanes, hpacked⟩ := Option.bind_eq_some_iff.mp hpacked
  obtain ⟨-, rfl⟩ := checkedMul_some.mp hpacked
  refine ⟨helement, hextents, rfl, ?_, rfl, lanes, hlanes, rfl⟩
  by_cases hppu : kind.isPpu = true
  · simp only [hppu, if_true] at hsurface ⊢
    exact (checkedNextMultipleOf_some.mp hsurface).2
  · simp only [hppu] at hsurface ⊢
    exact (Option.some.inj hsurface).symm

/-- **Every geometry is well formed.** -/
theorem cubeGeometry_wellFormed {kind : CubeKind} {elementBytes width height channels : Nat}
    {g : CubeGeometry} (h : cubeGeometry kind elementBytes width height channels = .ok g) :
    g.WellFormed := by
  obtain ⟨helement, hextents, hpixels, hsurface, hbytes, lanes, hlanes, hpacked⟩ := cubeGeometry_ok h
  obtain ⟨hle, hatoms⟩ := packedChannels_some helement hlanes
  refine ⟨?_, ?_, ?_, ?_, ?_⟩
  · rw [hpixels]
    exact Nat.mul_pos (by omega) (by omega)
  · rw [hpixels, hsurface]
    split_ifs
    · exact le_nextMultipleOf _ (by decide)
    · exact le_rfl
  · rw [hbytes]
    exact Nat.mul_pos (by omega) (by omega)
  · rw [hbytes, hpacked]
    exact Nat.mul_le_mul_right _ hle
  · rw [hpacked, hatoms]

theorem canChain_ok {g : CubeGeometry} {u : Unit} : g.canChain = .ok u ↔
    (g.bytesPerPixel ≠ 0 ∧ g.bytesPerPixel % 16 = 0) ∧ g.packedBytesPerPixel = g.bytesPerPixel := by
  unfold CubeGeometry.canChain CubeGeometry.isWholeAtom
  simp only [bind_ok, unlessErr_ok, exists_const, Bool.and_eq_true, bne_iff_ne, beq_iff_eq,
    featureAtomBytes]

theorem chainIdentity_ok {producer consumer : CubeGeometry} {u : Unit} :
    chainIdentity producer consumer = .ok u ↔
      ((consumer.bytesPerPixel ≠ 0 ∧ consumer.bytesPerPixel % 16 = 0) ∧
        consumer.packedBytesPerPixel = consumer.bytesPerPixel) ∧
      producer.pixelCount = consumer.pixelCount ∧
      producer.surfacePixelCount = consumer.surfacePixelCount ∧
      producer.bytesPerPixel = consumer.bytesPerPixel := by
  unfold chainIdentity
  simp only [bind_ok, unlessErr_ok, canChain_ok, exists_const]

/-- The layout word carries both halves. -/
theorem fromWord_toWord {layout : DispatchLayout} (hinputs : layout.packedInputs < 2 ^ 16)
    (hreaders : layout.packedReaders < 2 ^ 16) : DispatchLayout.fromWord layout.toWord = layout := by
  obtain ⟨inputs, readers⟩ := layout
  simp only at hinputs hreaders
  have hword : inputs ||| readers <<< 16 = readers * 2 ^ 16 + inputs := by
    rw [Nat.or_comm, ← Nat.shiftLeft_add_eq_or_of_lt hinputs, Nat.shiftLeft_eq]
  simp only [DispatchLayout.fromWord, DispatchLayout.toWord, DispatchLayout.readersShift, hword,
    DispatchLayout.mk.injEq]
  constructor
  · rw [show (0xffff : Nat) = 2 ^ 16 - 1 from rfl, Nat.and_two_pow_sub_one_eq_mod]
    omega
  · rw [Nat.shiftRight_eq_div_pow]
    omega

end IreeRocket.Layout
