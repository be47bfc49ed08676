import IreeRocket.Core.TiledConvolution
import IreeRocket.Driver.ChainIdentity

/-!
# The inputs of a fanned-out dispatch

A dispatch of several tiles spreads them over its own context and sibling contexts, in turn. A sibling
has a buffer of its own for the input, from the pool and with whatever the last user left, and
`apply_replica_copy` copies into it the rectangles its tiles read. What a tile reads is stated of the tile
and of how the input is staged (`Fetches`), apart from the rectangles: `replica_input_windows` says that they
are enough, that every tap of the tile's outputs is among them, and that nothing else is touched.
-/

namespace IreeRocket.FanOut

open Conv Driver Layout TensorLayout Writes Segments Strided

/-! ### The copies -/

/-- `tile_contexts`: tiles in order alternate over every context. -/
def tileContexts (tiles replicas : Nat) : List Nat := (List.range tiles).map (· % (replicas + 1))

/-- How an input buffer is laid out: `surfaces` planes, `surfaceStride` bytes apart, of `blockBytes` a
pixel. -/
structure BandGeometry where
  width : Nat
  height : Nat
  surfaces : Nat
  surfaceStride : Nat
  blockBytes : Nat
  deriving DecidableEq, Repr

/-- One tile's input rectangle. -/
structure InputBand where
  row : Nat
  rows : Nat
  column : Nat
  columns : Nat
  deriving DecidableEq, Repr

/-- A tile's band. -/
def inputBand (t : Tile2D) : InputBand :=
  ⟨t.rows.inFirst, t.rows.inRows, t.columns.inFirst, t.columns.inCols⟩

/-- What is copied to a sibling of one operand: the bands, or all of it. -/
structure ReplicaCopy where
  length : Nat
  geometry : Option BandGeometry
  bands : List InputBand
  deriving DecidableEq, Repr

/-- The runs `(offset, bytes)` of a band, clamped to the image: full-width rows are one run a plane. -/
def BandGeometry.runs (g : BandGeometry) (band : InputBand) : List (Nat × Nat) :=
  let row := min band.row g.height
  let rows := min band.rows (g.height - row)
  let column := min band.column g.width
  let columns := min band.columns (g.width - column)
  let rowBytes := g.width * g.blockBytes
  (List.range g.surfaces).flatMap fun surface =>
    let plane := surface * g.surfaceStride
    if column = 0 ∧ columns = g.width then [(plane + row * rowBytes, rows * rowBytes)]
    else (List.range rows).map fun y =>
      (plane + ((row + y) * g.width + column) * g.blockBytes, columns * g.blockBytes)

/-- One `copy_nonoverlapping` between equal offsets. -/
def copyRun (source buffer : Bytes) (run : Nat × Nat) : Bytes :=
  store buffer run.1 (load source run.1 run.2)

/-- The loops over the runs. A run past `length` is an error. -/
def copyRuns (source : Bytes) (length : Nat) : List (Nat × Nat) → Bytes → Except Status Bytes
  | [], buffer => .ok buffer
  | run :: runs, buffer =>
    if length < run.1 + run.2 then .error .internal
    else copyRuns source length runs (copyRun source buffer run)

/-- `apply_replica_copy`. `flushed` is whether `fini_bo` succeeds. -/
def applyReplicaCopy (flushed : Bool) (source : Bytes) (copy : ReplicaCopy) (buffer : Bytes) :
    Except Status Bytes := do
  let buffer ← match copy.geometry, copy.bands with
    | some g, _ :: _ => copyRuns source copy.length (copy.bands.flatMap g.runs) buffer
    | _, _ => .ok (store buffer 0 (load source 0 copy.length))
  unlessErr (flushed = true) Status.internal
  return buffer

/-! ### What is copied to a sibling -/

/-- Where a dispatch's own context has its input: a producer's cube, a packing, or the binding. -/
inductive StagedInput
  | chained (cube : CubeGeometry) (length : Nat)
  | packed (packing : InputPacking) (length : Nat)
  | direct (bytesPerPixel length : Nat)
  deriving DecidableEq, Repr

def StagedInput.length : StagedInput → Nat
  | chained _ length | packed _ length | direct _ length => length

/-- `input_geometry` of a `width x height` input. -/
def StagedInput.geometry (width height : Nat) : StagedInput → BandGeometry
  | chained cube _ => ⟨width, height, cube.bytesPerPixel / 16, cube.surfacePixelCount * 16, 16⟩
  | packed packing _ =>
    match packing.layout with
    | .nc1hwc2 =>
      ⟨width, height, packing.packedBytesPerPixel / 16, packing.packedPixelCount * 16, 16⟩
    | .dense => ⟨width, height, 1, 0, packing.packedBytesPerPixel⟩
  | direct bytesPerPixel _ => ⟨width, height, 1, 0, bytesPerPixel⟩

/-- The bytes of a pixel in the staged input. -/
def StagedInput.pixelBytes : StagedInput → Nat
  | chained cube _ => cube.bytesPerPixel
  | packed packing _ => packing.packedBytesPerPixel
  | direct bytesPerPixel _ => bytesPerPixel

/-- Where the staged input holds a byte of the pixel at a row and a column: surfaces of 16-byte atoms, or one
dense plane. -/
def StagedInput.place (width row column byte : Nat) : StagedInput → Nat
  | chained cube _ => sourceOffset cube.surfacePixelCount 16 (row * width + column) byte
  | packed packing _ =>
    match packing.layout with
    | .nc1hwc2 => sourceOffset packing.packedPixelCount 16 (row * width + column) byte
    | .dense => (row * width + column) * packing.packedBytesPerPixel + byte
  | direct bytesPerPixel _ => (row * width + column) * bytesPerPixel + byte

/-- The input `build_replicas` gives sibling `index`: the bands of the tiles it owns. -/
def replicaInput (length : Nat) (geometry : Option BandGeometry) (tileBands : List InputBand)
    (tileContext : List Nat) (index : Nat) : ReplicaCopy :=
  { length, geometry
    bands := ((tileBands.zip tileContext).filter fun (_, owner) => owner = index + 1).map Prod.fst }

/-- The input copy of sibling `index` of a plan fanned out to `replicas` siblings. -/
def plannedReplicaInput (plan : ConvPlan) (staged : StagedInput) (replicas index : Nat) : ReplicaCopy :=
  replicaInput staged.length (some (staged.geometry plan.shape.width plan.shape.height))
    (plan.tiles.map inputBand) (tileContexts plan.tiles.length replicas) index

/-! ### The bytes of a band -/

namespace BandGeometry

variable {g : BandGeometry} {band : InputBand}

/-- Where the buffer holds a byte of a pixel. -/
def byteAt (g : BandGeometry) (surface row column lane : Nat) : Nat :=
  surface * g.surfaceStride + (row * g.width + column) * g.blockBytes + lane

/-- The byte `k` is one of a pixel of the band, in some plane. -/
def InBand (g : BandGeometry) (band : InputBand) (k : Nat) : Prop :=
  ∃ surface row column lane, surface < g.surfaces ∧ Within band.row band.rows row ∧
    Within band.column band.columns column ∧ lane < g.blockBytes ∧
    k = g.byteAt surface row column lane

/-- The band lies in the image. -/
structure Holds (g : BandGeometry) (band : InputBand) : Prop where
  rows : band.row + band.rows ≤ g.height
  columns : band.column + band.columns ≤ g.width

/-- Every plane lies in `length` bytes. -/
def Fits (g : BandGeometry) (length : Nat) : Prop :=
  ∀ surface < g.surfaces, surface * g.surfaceStride + g.height * (g.width * g.blockBytes) ≤ length

/-- The runs of a band inside the image. -/
theorem mem_runs (h : g.Holds band) {run : Nat × Nat} :
    run ∈ g.runs band ↔ ∃ surface < g.surfaces,
      if band.column = 0 ∧ band.columns = g.width then
        run = (g.byteAt surface band.row 0 0, band.rows * (g.width * g.blockBytes))
      else ∃ y < band.rows,
        run = (g.byteAt surface (band.row + y) band.column 0, band.columns * g.blockBytes) := by
  have hrows := h.rows
  have hcolumns := h.columns
  have hrow : min band.row g.height = band.row := by omega
  have hrows_eq : min band.rows (g.height - band.row) = band.rows := by omega
  have hcolumn : min band.column g.width = band.column := by omega
  have hcolumns_eq : min band.columns (g.width - band.column) = band.columns := by omega
  have hfirst : ∀ surface, surface * g.surfaceStride + band.row * (g.width * g.blockBytes) =
      g.byteAt surface band.row 0 0 := by
    intro surface
    unfold byteAt
    rw [Nat.add_zero, Nat.add_zero, Nat.mul_assoc]
  unfold runs
  simp only [hrow, hrows_eq, hcolumn, hcolumns_eq, List.mem_flatMap, List.mem_range]
  refine exists_congr fun surface => and_congr_right fun _ => ?_
  split_ifs
  · rw [List.mem_singleton, hfirst]
  · simp only [List.mem_map, List.mem_range, eq_comm (b := run)]
    rfl

theorem byteAt_eq (surface row column lane : Nat) :
    g.byteAt surface row column lane =
      surface * g.surfaceStride + row * (g.width * g.blockBytes) + (column * g.blockBytes + lane) := by
  unfold byteAt
  rw [Nat.add_mul, Nat.mul_assoc]
  omega

theorem lane_lt {n block column lane : Nat} (hcolumn : column < n) (hlane : lane < block) :
    column * block + lane < n * block := by
  have hle : (column + 1) * block ≤ n * block := Nat.mul_le_mul_right _ hcolumn
  rw [Nat.add_mul, Nat.one_mul] at hle
  omega

theorem exists_lane {n block x : Nat} (h : x < n * block) :
    ∃ column lane, column < n ∧ lane < block ∧ x = column * block + lane := by
  have hblock : 0 < block := Nat.pos_of_ne_zero (by rintro rfl; simp at h)
  exact ⟨x / block, x % block, (Nat.div_lt_iff_lt_mul hblock).mpr h, Nat.mod_lt _ hblock,
    (Nat.div_add_mod' x block).symm⟩

/-- The runs cover exactly the bytes of the band. -/
theorem runs_cover (h : g.Holds band) {k : Nat} :
    (∃ run ∈ g.runs band, Within run.1 run.2 k) ↔ g.InBand band k := by
  have hcolumns := h.columns
  constructor
  · rintro ⟨run, hrun, hlow, hhigh⟩
    obtain ⟨surface, hsurface, hrun⟩ := (mem_runs h).mp hrun
    obtain ⟨x, rfl⟩ := Nat.exists_eq_add_of_le hlow
    have hx : x < run.2 := by omega
    split_ifs at hrun with hfull
    · -- A byte of the one run of whole rows has a row, a column and a lane.
      subst hrun
      obtain ⟨y, rest, hy, hrest, rfl⟩ := exists_lane hx
      obtain ⟨column, lane, hcolumn, hlane, rfl⟩ := exists_lane hrest
      refine ⟨surface, band.row + y, column, lane, hsurface, ⟨Nat.le_add_right _ _, ?_⟩,
        ⟨?_, ?_⟩, hlane, ?_⟩
      · omega
      · omega
      · omega
      · simp only [byteAt_eq, Nat.zero_mul, Nat.add_zero, Nat.add_mul]
        omega
    · obtain ⟨y, hy, rfl⟩ := hrun
      obtain ⟨column, lane, hcolumn, hlane, rfl⟩ := exists_lane hx
      refine ⟨surface, band.row + y, band.column + column, lane, hsurface,
        ⟨Nat.le_add_right _ _, ?_⟩, ⟨Nat.le_add_right _ _, ?_⟩, hlane, ?_⟩
      · omega
      · omega
      · simp only [byteAt_eq, Nat.add_mul]
        omega
  · rintro ⟨surface, row, column, lane, hsurface, hrow, hcolumn, hlane, rfl⟩
    obtain ⟨y, rfl⟩ := Nat.exists_eq_add_of_le hrow.1
    obtain ⟨x, rfl⟩ := Nat.exists_eq_add_of_le hcolumn.1
    have hy : y < band.rows := by have := hrow.2; omega
    have hx : x < band.columns := by have := hcolumn.2; omega
    have hlast := lane_lt hx hlane
    by_cases hfull : band.column = 0 ∧ band.columns = g.width
    · refine ⟨_, (mem_runs h).mpr ⟨surface, hsurface, by rw [if_pos hfull]⟩, ?_, ?_⟩
      · simp only [byteAt_eq, Nat.zero_mul, Nat.add_zero, Nat.add_mul]
        omega
      · rw [hfull.2] at hlast
        have hrows := lane_lt hy hlast
        simp only [byteAt_eq, hfull.1, Nat.zero_mul, Nat.zero_add, Nat.add_zero, Nat.add_mul]
        omega
    · refine ⟨_, (mem_runs h).mpr ⟨surface, hsurface, by rw [if_neg hfull]; exact ⟨y, hy, rfl⟩⟩,
        ?_, ?_⟩
      · simp only [byteAt_eq, Nat.add_mul]
        omega
      · simp only [byteAt_eq, Nat.add_mul]
        omega

/-- Every run of a band ends in the planes. -/
theorem run_le {length : Nat} (hfits : g.Fits length) (h : g.Holds band) {run : Nat × Nat}
    (hrun : run ∈ g.runs band) : run.1 + run.2 ≤ length := by
  obtain ⟨surface, hsurface, hrun⟩ := (mem_runs h).mp hrun
  have hplane := hfits surface hsurface
  split_ifs at hrun with hfull
  · subst hrun
    have hrows := Nat.mul_le_mul_right (g.width * g.blockBytes) h.rows
    rw [Nat.add_mul] at hrows
    simp only [byteAt_eq, Nat.zero_mul, Nat.add_zero]
    omega
  · obtain ⟨y, hy, rfl⟩ := hrun
    have hrows := Nat.mul_le_mul_right (g.width * g.blockBytes)
      (show band.row + y + 1 ≤ g.height by have := h.rows; omega)
    have hcolumns := Nat.mul_le_mul_right g.blockBytes h.columns
    rw [Nat.add_mul _ 1, Nat.one_mul] at hrows
    rw [Nat.add_mul] at hcolumns
    simp only [byteAt_eq]
    omega

end BandGeometry

/-! ### What the copies leave -/

theorem length_copyRun (source buffer : Bytes) (run : Nat × Nat) :
    (copyRun source buffer run).length = buffer.length := length_store _ _ _

/-- With every run inside, no run is refused. -/
theorem copyRuns_ok {source : Bytes} {length : Nat} {runs : List (Nat × Nat)}
    (h : ∀ run ∈ runs, run.1 + run.2 ≤ length) (buffer : Bytes) :
    copyRuns source length runs buffer = .ok (runs.foldl (copyRun source) buffer) := by
  induction runs generalizing buffer with
  | nil => rfl
  | cons run runs ih =>
    have hrun := h run List.mem_cons_self
    rw [copyRuns, if_neg (by omega), ih fun other hother => h other (List.mem_cons_of_mem _ hother)]
    rfl

/-- The runs write toward the source. -/
theorem runs_toward {source : Bytes} {length bufferLength : Nat} {runs : List (Nat × Nat)}
    (h : ∀ run ∈ runs, run.1 + run.2 ≤ length) (hsource : length ≤ source.length)
    (hbuffer : length ≤ bufferLength) :
    Toward (fun buffer : Bytes => buffer.length = bufferLength) (fun buffer k => buffer[k]?)
      (copyRun source) (fun run k => Within run.1 run.2 k) (fun k => source[k]?) runs where
  inv run _ buffer hlength := (length_copyRun source buffer run).trans hlength
  hit run hrun buffer hlength k hk := by
    have hend := h run hrun
    have hload : (load source run.1 run.2).length = run.2 := length_load (hend.trans hsource)
    have hlow := hk.1
    have hhigh := hk.2
    unfold copyRun
    rw [getElem?_store_mem (by omega) hlow (by omega), getElem?_load (by omega),
      Nat.add_sub_cancel' hlow]
  miss run hrun buffer hlength k hk := by
    have hload : (load source run.1 run.2).length = run.2 :=
      length_load ((h run hrun).trans hsource)
    unfold Within at hk
    exact getElem?_store_not_mem (by omega)

/-- **The copy of some bands**: it is not refused, and the buffer has the source's bytes at the bands
and its own elsewhere. -/
theorem applyReplicaCopy_bands {source buffer : Bytes} {copy : ReplicaCopy} {g : BandGeometry}
    (hgeometry : copy.geometry = some g) (hbands : copy.bands ≠ [])
    (hholds : ∀ band ∈ copy.bands, g.Holds band) (hfits : g.Fits copy.length)
    (hsource : copy.length ≤ source.length) (hbuffer : copy.length ≤ buffer.length) :
    ∃ out, applyReplicaCopy true source copy buffer = .ok out ∧ out.length = buffer.length ∧
      (∀ band ∈ copy.bands, ∀ k, g.InBand band k → out[k]? = source[k]?) ∧
      ∀ k, (∀ band ∈ copy.bands, ¬ g.InBand band k) → out[k]? = buffer[k]? := by
  have hinside : ∀ run ∈ copy.bands.flatMap g.runs, run.1 + run.2 ≤ copy.length := by
    intro run hrun
    obtain ⟨band, hband, hrun⟩ := List.mem_flatMap.mp hrun
    exact BandGeometry.run_le hfits (hholds band hband) hrun
  have htoward := runs_toward hinside hsource hbuffer
  refine ⟨_, ?_, htoward.foldl_inv rfl, ?_, ?_⟩
  · unfold applyReplicaCopy
    rw [hgeometry]
    cases hcases : copy.bands with
    | nil => exact absurd hcases hbands
    | cons band bands =>
      rw [hcases] at hinside
      simp only [bind_ok, unlessErr_ok, pure_ok, exists_const]
      exact ⟨_, copyRuns_ok hinside buffer, trivial, rfl⟩
  · intro band hband k hk
    obtain ⟨run, hrun, hwithin⟩ := (BandGeometry.runs_cover (hholds band hband)).mpr hk
    exact htoward.foldl_hit rfl ⟨run, List.mem_flatMap.mpr ⟨band, hband, hrun⟩, hwithin⟩
  · intro k hk
    refine htoward.foldl_miss rfl fun run hrun hwithin => ?_
    obtain ⟨band, hband, hrun⟩ := List.mem_flatMap.mp hrun
    exact hk band hband ((BandGeometry.runs_cover (hholds band hband)).mp ⟨run, hrun, hwithin⟩)

/-! ### The windows of a plan -/

/-- The staged input of a `width x height` image is as long as its layout: a chained cube has the
image's surfaces and every surface a consumer reads, a packing has its storage size, and a binding was
checked against the dense size. Surfaces hold whole atoms of a pixel. -/
inductive StagedInput.Holds (width height : Nat) : StagedInput → Prop
  | chained {cube : CubeGeometry} {length : Nat} (hatoms : cube.bytesPerPixel % 16 = 0)
      (hpixels : height * width ≤ cube.surfacePixelCount)
      (hlength : cube.bytesPerPixel / 16 * cube.surfacePixelCount * 16 ≤ length) :
      Holds width height (.chained cube length)
  | surfaces {packing : InputPacking} {length : Nat} (hlayout : packing.layout = .nc1hwc2)
      (hatoms : packing.packedBytesPerPixel % 16 = 0) (hpixels : height * width ≤ packing.packedPixelCount)
      (hlength : nc1hwc2StorageSize packing.packedPixelCount packing.packedBytesPerPixel = .ok length) :
      Holds width height (.packed packing length)
  | dense {packing : InputPacking} {length : Nat} (hlayout : packing.layout = .dense)
      (hlength : height * width * packing.packedBytesPerPixel ≤ length) :
      Holds width height (.packed packing length)
  | direct {bytesPerPixel length : Nat} (hlength : height * width * bytesPerPixel ≤ length) :
      Holds width height (.direct bytesPerPixel length)

/-- Planes of 16 bytes a pixel. -/
theorem fits_surfaces {width height surfaces pixels length : Nat} (hpixels : height * width ≤ pixels)
    (hlength : surfaces * pixels * 16 ≤ length) :
    BandGeometry.Fits ⟨width, height, surfaces, pixels * 16, 16⟩ length := by
  intro surface hsurface
  have hplanes : (surface + 1) * (pixels * 16) ≤ surfaces * (pixels * 16) :=
    Nat.mul_le_mul_right _ hsurface
  rw [Nat.add_mul, Nat.one_mul, ← Nat.mul_assoc surfaces] at hplanes
  have himage := Nat.mul_le_mul_right 16 hpixels
  rw [Nat.mul_assoc] at himage
  dsimp only
  omega

/-- One dense plane. -/
theorem fits_dense {width height block length : Nat} (hlength : height * width * block ≤ length) :
    BandGeometry.Fits ⟨width, height, 1, 0, block⟩ length := by
  intro surface _
  rw [Nat.mul_assoc] at hlength
  simpa using hlength

theorem StagedInput.Holds.fits {width height : Nat} {staged : StagedInput}
    (h : staged.Holds width height) : (staged.geometry width height).Fits staged.length := by
  cases h with
  | chained _ hpixels hlength => exact fits_surfaces hpixels hlength
  | @surfaces packing length hlayout _ hpixels hlength =>
    unfold StagedInput.geometry
    simp only [hlayout]
    refine fits_surfaces hpixels ?_
    unfold nc1hwc2StorageSize at hlength
    simp only [bind_ok, unlessErr_ok, exists_const, okOr_ok] at hlength
    have hsize := checkedProduct_some hlength.2
    simp only [List.prod_cons, List.prod_nil, Nat.mul_one, featureAtomicBytes] at hsize
    have hround := le_ceilDiv_mul packing.packedBytesPerPixel (show 0 < 16 by decide)
    have hcount := Nat.mul_le_mul_right packing.packedPixelCount
      (show packing.packedBytesPerPixel / 16 ≤ packing.packedBytesPerPixel ⌈/⌉ 16 by omega)
    rw [show StagedInput.length (.packed packing length) = length from rfl, hsize,
      ← Nat.mul_assoc, Nat.mul_comm packing.packedPixelCount]
    exact Nat.mul_le_mul_right 16 hcount
  | dense hlayout hlength =>
    unfold StagedInput.geometry
    simp only [hlayout]
    exact fits_dense hlength
  | direct hlength => exact fits_dense hlength

/-- Position `i` runs on context `i % (replicas + 1)`. -/
theorem getElem?_tileContexts {tiles replicas i : Nat} (hi : i < tiles) :
    (tileContexts tiles replicas)[i]? = some (i % (replicas + 1)) := by
  unfold tileContexts
  rw [List.getElem?_map, List.getElem?_range hi, Option.map_some]

/-- A sibling gets the bands of the tiles it owns. -/
theorem mem_plannedBands {plan : ConvPlan} {staged : StagedInput} {replicas index : Nat}
    {band : InputBand} :
    band ∈ (plannedReplicaInput plan staged replicas index).bands ↔
      ∃ i t, plan.tiles[i]? = some t ∧ i % (replicas + 1) = index + 1 ∧ band = inputBand t := by
  have hfound : ∀ i, ((plan.tiles.map inputBand).zip (tileContexts plan.tiles.length replicas))[i]? =
      plan.tiles[i]?.map fun t => (inputBand t, i % (replicas + 1)) := by
    intro i
    by_cases hi : i < plan.tiles.length
    · rw [List.zip, List.getElem?_zipWith, List.getElem?_map, getElem?_tileContexts hi,
        List.getElem?_eq_getElem hi]
      rfl
    · rw [List.zip, List.getElem?_zipWith, List.getElem?_map,
        List.getElem?_eq_none (Nat.not_lt.mp hi)]
      rfl
  unfold plannedReplicaInput replicaInput
  simp only [List.mem_map, List.mem_filter, decide_eq_true_eq, Prod.exists, exists_and_right,
    exists_eq_right]
  constructor
  · intro hmem
    obtain ⟨i, hi⟩ := List.mem_iff_getElem?.mp hmem
    rw [hfound, Option.map_eq_some_iff] at hi
    obtain ⟨t, ht, heq⟩ := hi
    obtain ⟨rfl, howner⟩ := Prod.mk.inj heq
    exact ⟨i, t, ht, howner, rfl⟩
  · rintro ⟨i, t, ht, howner, rfl⟩
    refine List.mem_iff_getElem?.mpr ⟨i, ?_⟩
    rw [hfound, ht, Option.map_some, howner]

@[simp] theorem StagedInput.geometry_width (staged : StagedInput) (width height : Nat) :
    (staged.geometry width height).width = width := by
  unfold geometry
  split
  · rfl
  · split <;> rfl
  · rfl

@[simp] theorem StagedInput.geometry_height (staged : StagedInput) (width height : Nat) :
    (staged.geometry width height).height = height := by
  unfold geometry
  split
  · rfl
  · split <;> rfl
  · rfl

/-- The input window of a tile lies in the image. -/
theorem holds_inputBand {policy : PlanningPolicy} {shape : Shape} {kernels : Kernels} {plan : ConvPlan}
    (h : Accepted policy shape kernels plan) (staged : StagedInput) {t : Tile2D}
    (ht : t ∈ plan.tiles) :
    (staged.geometry plan.shape.width plan.shape.height).Holds (inputBand t) := by
  obtain ⟨⟨-, hrows⟩, -, hcolumns⟩ := (tiled_convolution_eq h).window t ht
  rw [h.planned.shape_eq]
  constructor
  · rw [staged.geometry_height]
    exact hrows
  · rw [staged.geometry_width]
    exact hcolumns

/-- A tile's job reads the byte `k` of its staged input: a byte of a pixel in the rows and the columns that
the tile is programmed to fetch. -/
def Fetches (plan : ConvPlan) (staged : StagedInput) (t : Tile2D) (k : Nat) : Prop :=
  ∃ row column byte, Within t.rows.inFirst t.rows.inRows row ∧
    Within t.columns.inFirst t.columns.inCols column ∧ byte < staged.pixelBytes ∧
    k = staged.place plan.shape.width row column byte

/-- The byte `k` is one of an input pixel that a tap of one of the tile's outputs falls on. -/
def Taps (plan : ConvPlan) (staged : StagedInput) (t : Tile2D) (k : Nat) : Prop :=
  ∃ r c, t.Holds r c ∧ ∃ ky < plan.kernels.1, ∃ kx < plan.kernels.2,
    ∃ row < plan.shape.height, ∃ column < plan.shape.width,
      (row : Int) = (r : Int) * plan.shape.stride + ky - (plan.shape.kernelProgramming plan.kernels).padTop ∧
      (column : Int) =
        (c : Int) * plan.shape.stride + kx - (plan.shape.kernelProgramming plan.kernels).padLeft ∧
      ∃ byte < staged.pixelBytes, k = staged.place plan.shape.width row column byte

/-- What a tile computes its outputs from, it fetches. -/
theorem fetches_of_taps {policy : PlanningPolicy} {shape : Shape} {kernels : Kernels} {plan : ConvPlan}
    (h : Accepted policy shape kernels plan) {staged : StagedInput} {t : Tile2D} (ht : t ∈ plan.tiles)
    {k : Nat} (hk : Taps plan staged t k) : Fetches plan staged t k := by
  obtain ⟨r, c, hholds, ky, hky, kx, hkx, row, hrow, column, hcolumn, hrowTap, hcolumnTap, byte, hbyte,
    rfl⟩ := hk
  rw [h.planned.shape_eq, h.planned.kernels_eq] at *
  obtain ⟨⟨-, hrows⟩, -, hcolumns⟩ := (tiled_convolution_eq h).taps t ht r c hholds ky hky kx hkx
  rw [← hrowTap] at hrows
  rw [← hcolumnTap] at hcolumns
  obtain ⟨hrowLow, hrowHigh, -⟩ := hrows ⟨by omega, by omega⟩
  obtain ⟨hcolumnLow, hcolumnHigh, -⟩ := hcolumns ⟨by omega, by omega⟩
  rw [← h.planned.shape_eq]
  exact ⟨row, column, byte, ⟨by omega, by omega⟩, ⟨by omega, by omega⟩, hbyte, rfl⟩

theorem place_surfaces {stride pixel byte : Nat} :
    sourceOffset stride 16 pixel byte = byte / 16 * (stride * 16) + pixel * 16 + byte % 16 := by
  unfold sourceOffset
  rw [Nat.add_mul, Nat.mul_assoc]

/-- The bytes of a pixel in whole atoms, by surface and lane. -/
theorem inBand_surfaces {width height bytes stride : Nat} (hatoms : bytes % 16 = 0) {band : InputBand}
    {k : Nat} :
    BandGeometry.InBand ⟨width, height, bytes / 16, stride * 16, 16⟩ band k ↔
      ∃ row column byte, Within band.row band.rows row ∧ Within band.column band.columns column ∧
        byte < bytes ∧ k = sourceOffset stride 16 (row * width + column) byte := by
  unfold BandGeometry.InBand BandGeometry.byteAt
  dsimp only
  constructor
  · rintro ⟨surface, row, column, lane, hsurface, hrow, hcolumn, hlane, rfl⟩
    refine ⟨row, column, surface * 16 + lane, hrow, hcolumn, by omega, ?_⟩
    rw [place_surfaces, show (surface * 16 + lane) / 16 = surface by omega,
      show (surface * 16 + lane) % 16 = lane by omega]
  · rintro ⟨row, column, byte, hrow, hcolumn, hbyte, rfl⟩
    exact ⟨byte / 16, row, column, byte % 16, by omega, hrow, hcolumn, by omega, place_surfaces⟩

theorem inBand_dense {width height block : Nat} {band : InputBand} {k : Nat} :
    BandGeometry.InBand ⟨width, height, 1, 0, block⟩ band k ↔
      ∃ row column byte, Within band.row band.rows row ∧ Within band.column band.columns column ∧
        byte < block ∧ k = (row * width + column) * block + byte := by
  unfold BandGeometry.InBand BandGeometry.byteAt
  dsimp only
  constructor
  · rintro ⟨surface, row, column, lane, hsurface, hrow, hcolumn, hlane, rfl⟩
    exact ⟨row, column, lane, hrow, hcolumn, hlane, by rw [Nat.mul_zero, Nat.zero_add]⟩
  · rintro ⟨row, column, byte, hrow, hcolumn, hbyte, rfl⟩
    exact ⟨0, row, column, byte, Nat.one_pos, hrow, hcolumn, hbyte, by rw [Nat.mul_zero, Nat.zero_add]⟩

/-- The rectangle that is copied for a tile is what its job fetches, halo and all. -/
theorem inBand_iff {plan : ConvPlan} {staged : StagedInput} {width height : Nat}
    (hstaged : staged.Holds width height) {t : Tile2D} {k : Nat} :
    (staged.geometry plan.shape.width plan.shape.height).InBand (inputBand t) k ↔
      Fetches plan staged t k := by
  unfold Fetches StagedInput.geometry StagedInput.place StagedInput.pixelBytes
  cases hstaged with
  | chained hatoms => exact inBand_surfaces hatoms
  | surfaces hlayout hatoms =>
    simp only [hlayout]
    exact inBand_surfaces hatoms
  | dense hlayout =>
    simp only [hlayout]
    exact inBand_dense
  | direct => exact inBand_dense

/-- A tile of a plan owned by a sibling reads the byte `k` of its input buffer. -/
def ReadBySibling (plan : ConvPlan) (staged : StagedInput) (replicas index k : Nat) : Prop :=
  ∃ i t, plan.tiles[i]? = some t ∧ i % (replicas + 1) = index + 1 ∧ Fetches plan staged t k

/-- The copy is not refused, the buffer has the source's bytes where the sibling's tiles read, and its own
everywhere else. -/
theorem sibling_windows {policy : PlanningPolicy} {shape : Shape} {kernels : Kernels}
    {plan : ConvPlan} (h : Accepted policy shape kernels plan) {staged : StagedInput}
    (hstaged : staged.Holds shape.width shape.height) {replicas index : Nat}
    (hreplicas : replicas < plan.tiles.length) (hindex : index < replicas) {source buffer : Bytes}
    (hsource : staged.length ≤ source.length) (hbuffer : staged.length ≤ buffer.length) :
    ∃ out, applyReplicaCopy true source (plannedReplicaInput plan staged replicas index) buffer =
        .ok out ∧ out.length = buffer.length ∧
      ∀ k, (ReadBySibling plan staged replicas index k → out[k]? = source[k]?) ∧
        (¬ ReadBySibling plan staged replicas index k → out[k]? = buffer[k]?) := by
  have hshape := h.planned.shape_eq
  have hbands : (plannedReplicaInput plan staged replicas index).bands ≠ [] := by
    have hi : index + 1 < plan.tiles.length := by omega
    exact List.ne_nil_of_mem (mem_plannedBands.mpr
      ⟨index + 1, _, List.getElem?_eq_getElem hi, Nat.mod_eq_of_lt (by omega), rfl⟩)
  have hholds : ∀ band ∈ (plannedReplicaInput plan staged replicas index).bands,
      (staged.geometry plan.shape.width plan.shape.height).Holds band := by
    intro band hband
    obtain ⟨i, t, ht, -, rfl⟩ := mem_plannedBands.mp hband
    exact holds_inputBand h staged (List.mem_of_getElem? ht)
  have hfits : (staged.geometry plan.shape.width plan.shape.height).Fits staged.length := by
    rw [hshape]
    exact hstaged.fits
  obtain ⟨out, hrun, hlength, hread, hkept⟩ :=
    applyReplicaCopy_bands rfl hbands hholds hfits hsource hbuffer
  refine ⟨out, hrun, hlength, fun k => ⟨?_, fun hnot => hkept k fun band hband hin => hnot ?_⟩⟩
  · rintro ⟨i, t, ht, howner, hfetches⟩
    exact hread _ (mem_plannedBands.mpr ⟨i, t, ht, howner, rfl⟩) k ((inBand_iff hstaged).mpr hfetches)
  · obtain ⟨i, t, ht, howner, rfl⟩ := mem_plannedBands.mp hband
    exact ⟨i, t, ht, howner, (inBand_iff hstaged).mp hin⟩

/-- **A sibling's input holds what its tiles read, and nothing else is written.** For every accepted plan,
every way its input is staged and every number of siblings under the number of tiles, whatever the
pooled buffer held. What a tile reads holds every tap of its outputs, every tile is read for on one context,
and no context is left without a tile. -/
theorem replica_input_windows {policy : PlanningPolicy} {shape : Shape} {kernels : Kernels}
    {plan : ConvPlan} (h : Accepted policy shape kernels plan) {staged : StagedInput} {replicas : Nat}
    (hstaged : 0 < replicas → staged.Holds shape.width shape.height)
    (hreplicas : replicas < plan.tiles.length) {source : Bytes}
    (hsource : staged.length ≤ source.length) :
    (∀ context ≤ replicas, ∃ i < plan.tiles.length,
      (tileContexts plan.tiles.length replicas)[i]? = some context) ∧
    (∀ t ∈ plan.tiles, ∀ k, Taps plan staged t k → Fetches plan staged t k) ∧
    ∀ index < replicas, ∀ buffer : Bytes, staged.length ≤ buffer.length →
      ∃ out, applyReplicaCopy true source (plannedReplicaInput plan staged replicas index) buffer =
          .ok out ∧ out.length = buffer.length ∧
        ∀ k, (ReadBySibling plan staged replicas index k → out[k]? = source[k]?) ∧
          (¬ ReadBySibling plan staged replicas index k → out[k]? = buffer[k]?) := by
  refine ⟨fun context hcontext => ⟨context, by omega, ?_⟩, fun t ht k hk => fetches_of_taps h ht hk,
    fun index hindex buffer hbuffer =>
      sibling_windows h (hstaged (by omega)) hreplicas hindex hsource hbuffer⟩
  rw [getElem?_tileContexts (by omega), Nat.mod_eq_of_lt (by omega)]

theorem replica_input_windows_stem :
    (∀ context ≤ 2, ∃ i < 5, (tileContexts 5 2)[i]? = some context) ∧
    (∀ t ∈ stemPlan.tiles, ∀ k, Taps stemPlan (.direct 6 301056) t k → Fetches stemPlan (.direct 6 301056) t k) ∧
    ∀ index < 2, ∀ buffer : Bytes, 301056 ≤ buffer.length →
      ∃ out, applyReplicaCopy true (List.replicate 301056 1)
          (plannedReplicaInput stemPlan (.direct 6 301056) 2 index) buffer = .ok out ∧
        out.length = buffer.length ∧
        ∀ k, (ReadBySibling stemPlan (.direct 6 301056) 2 index k →
            out[k]? = (List.replicate 301056 (1 : UInt8))[k]?) ∧
          (¬ ReadBySibling stemPlan (.direct 6 301056) 2 index k → out[k]? = buffer[k]?) := by
  have hstaged : (StagedInput.direct 6 301056).Holds stemShape.width stemShape.height :=
    .direct (by decide)
  have hsource : (StagedInput.direct 6 301056).length ≤ (List.replicate 301056 (1 : UInt8)).length :=
    List.length_replicate.ge
  have htiles : 2 < stemPlan.tiles.length := by decide
  exact replica_input_windows stem_accepted (fun _ => hstaged) htiles hsource

end IreeRocket.FanOut
