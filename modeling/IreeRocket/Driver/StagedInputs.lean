import IreeRocket.Driver.DispatchRecording
import IreeRocket.Driver.Matmul
import IreeRocket.Driver.ReplicaInputs

/-!
# The inputs the dispatch arms stage

A convolution and a matmul fan their tiles out to sibling contexts, and every other kind runs on its own.
Whatever these two stage their input as, it is as long as its layout (`convStagedInput_holds`,
`matmulStagedInput_holds`). A matmul of one channel packs its input densely with a pitch that is not the
pitch of its scratch; its plan has one tile and is never fanned out (`tiles_of_denseRow`).
-/

namespace IreeRocket.FanOut

open Conv Driver Layout TensorLayout Segments

/-- `input_source` and `input_geometry` of a convolution: a producer's cube and the length of its scratch, a
packing, or the binding. -/
def convStagedInput (shape : Shape) (geometry : CubeGeometry) (inputLength : Nat) :
    Option (CubeGeometry × Nat) → Except String StagedInput
  | some (cube, length) => .ok (.chained cube length)
  | none => do
    if shape.layout = .surfaces then
      let bytes ← nc1hwc2StorageSize geometry.pixelCount geometry.packedBytesPerPixel
      return .packed {
        sourcePixelCount := geometry.pixelCount, packedPixelCount := geometry.pixelCount
        bytesPerPixel := geometry.bytesPerPixel, packedBytesPerPixel := geometry.packedBytesPerPixel
        paddingByte := 0, layout := .nc1hwc2 } bytes
    else return .direct geometry.bytesPerPixel inputLength

/-- The same of a matmul, whose input is a cube or a packing. -/
def matmulStagedInput (shape : Fc.Shape) (geometry : CubeGeometry) (paddingByte : UInt8) :
    Option (CubeGeometry × Nat) → Except String StagedInput
  | some (cube, length) => .ok (.chained cube length)
  | none => do
    let packing (layout : InputPackingLayout) : InputPacking := {
      sourcePixelCount := shape.m, packedPixelCount := shape.m
      bytesPerPixel := geometry.bytesPerPixel, packedBytesPerPixel := geometry.packedBytesPerPixel
      paddingByte, layout }
    if 1 < shape.k then
      let bytes ← nc1hwc2StorageSize shape.m geometry.packedBytesPerPixel
      return .packed (packing .nc1hwc2) bytes
    else
      let bytes ← okOr (checkedMul shape.m geometry.bytesPerPixel) "matmul input size overflows usize"
      return .packed (packing .dense) bytes

/-- A cube that a lookup answered, whose scratch holds its surfaces. -/
structure InPlace (consumer cube : CubeGeometry) (length : Nat) : Prop where
  identity : chainIdentity cube consumer = .ok ()
  length_le : cube.bytesPerPixel / 16 * cube.surfacePixelCount * 16 ≤ length

/-- A cube read in place of a feature map's packing. -/
theorem InPlace.holds {kind : CubeKind} {elementBytes width height channels length : Nat}
    {geometry cube : CubeGeometry}
    (hgeometry : cubeGeometry kind elementBytes width height channels = .ok geometry)
    (h : InPlace geometry cube length) : StagedInput.Holds width height (.chained cube length) := by
  obtain ⟨⟨⟨-, hatoms⟩, -⟩, -, hsurface, hbytes⟩ := chainIdentity_ok.mp h.identity
  obtain ⟨-, -, hpixels, -⟩ := cubeGeometry_ok hgeometry
  have hle := (cubeGeometry_wellFormed hgeometry).pixel_le
  refine .chained (by rw [hbytes]; exact hatoms) ?_ h.length_le
  rw [hsurface, Nat.mul_comm, ← hpixels]
  exact hle

/-- **Whatever a convolution stages as its input is as long as its layout.** -/
theorem convStagedInput_holds {shape : Shape} {elementBytes : Nat} {geometry : CubeGeometry}
    {input : Binding} {chained : Option (CubeGeometry × Nat)} {staged : StagedInput}
    (hgeometry : cubeGeometry .conv elementBytes shape.width shape.height shape.inChannels = .ok geometry)
    (hinput : Fits (denseSize geometry) input)
    (hchained : ∀ cube length, chained = some (cube, length) → InPlace geometry cube length)
    (h : convStagedInput shape geometry input.length chained = .ok staged) :
    staged.Holds shape.width shape.height := by
  obtain ⟨-, -, hpixels, -⟩ := cubeGeometry_ok hgeometry
  have hformed := cubeGeometry_wellFormed hgeometry
  unfold convStagedInput at h
  split at h
  next cube length =>
    cases h
    exact (hchained cube length rfl).holds hgeometry
  next =>
    split_ifs at h
    · simp only [bind_ok, pure_ok] at h
      obtain ⟨bytes, hbytes, rfl⟩ := h
      refine .surfaces rfl hformed.packed_atoms ?_ hbytes
      rw [Nat.mul_comm, ← hpixels]
    · cases h
      refine .direct ?_
      unfold Fits denseSize at hinput
      cases hbytes : checkedMul geometry.pixelCount geometry.bytesPerPixel with
      | none =>
        rw [hbytes] at hinput
        cases hinput
      | some bytes =>
        obtain ⟨-, rfl⟩ := checkedMul_some.mp hbytes
        rw [hbytes] at hinput
        rw [Nat.mul_comm shape.height, ← hpixels]
        exact of_decide_eq_true hinput

/-- **Whatever a matmul of several channels stages as its input is as long as its layout.** -/
theorem matmulStagedInput_holds {shape : Fc.Shape} {elementBytes : Nat} {geometry : CubeGeometry}
    {paddingByte : UInt8} {chained : Option (CubeGeometry × Nat)} {staged : StagedInput}
    (hgeometry : cubeGeometry .matmul elementBytes shape.m 1 shape.k = .ok geometry)
    (hchained : ∀ cube length, chained = some (cube, length) → InPlace geometry cube length)
    (h : matmulStagedInput shape geometry paddingByte chained = .ok staged) (hk : 1 < shape.k) :
    staged.Holds shape.m 1 := by
  have hformed := cubeGeometry_wellFormed hgeometry
  unfold matmulStagedInput at h
  split at h
  next cube length =>
    cases h
    exact (hchained cube length rfl).holds hgeometry
  next =>
    rw [if_pos hk] at h
    simp only [bind_ok, pure_ok] at h
    obtain ⟨bytes, hbytes, rfl⟩ := h
    exact .surfaces rfl hformed.packed_atoms (Nat.one_mul _).le hbytes

/-! ### A dense row is one tile -/

/-- Nonempty segments of a range of one position are one. -/
theorem length_of_covers_one {α : Type} {first count : α → Nat} {a b : Nat} {l : List α}
    (h : Covers first count a l b) (hone : b = a + 1) : l.length = 1 := by
  cases h with
  | nil => omega
  | @cons x l _ hpos htail =>
    have hle := htail.le
    cases l with
    | nil => rfl
    | cons y l =>
      have hmem := htail.mem (List.mem_cons_self (a := y) (l := l))
      omega

/-- The plan of a dense layout whose output is one row high is one tile. -/
theorem tiles_of_denseRow {policy : PlanningPolicy} {shape : Shape} {kernels : Kernels} {plan : ConvPlan}
    (hplan : ConvPlan.tryNew policy shape kernels = .ok plan) (hdense : shape.layout = .dense)
    (hrow : shape.outputHeight kernels = 1) : plan.tiles.length = 1 := by
  obtain ⟨_, _, _, banks, -, -, -, -, hnew⟩ := tryNew_ok.mp hplan
  unfold ConvPlan.newWithCbufPartition at hnew
  simp only [bind_ok] at hnew
  obtain ⟨full, hfull, hnew⟩ := hnew
  cases full with
  | none =>
    simp only [bind_ok, refuseUnless_ok, exists_const] at hnew
    rw [hdense] at hnew
    exact absurd hnew.1 (by decide)
  | some tiles =>
    obtain rfl := pure_ok.mp hnew
    obtain ⟨columns, hsplit, hcolumns⟩ := planGrid_ok hfull
    unfold ColumnTile.split ColumnTile.splitFrom ColumnTile.splitFrom at hsplit
    simp only [bind_ok, assertThat_ok, exists_const, pure_ok] at hsplit
    obtain ⟨-, -, column, -, _, rfl, rfl⟩ := hsplit
    unfold planColumns planColumns at hcolumns
    split_ifs at hcolumns
    · cases hcolumns
    simp only [bind_ok] at hcolumns
    obtain ⟨_, -, rows, hrows, hrest⟩ := hcolumns
    cases rows with
    | none => cases hrest
    | some rows =>
      cases hrest
      rw [List.append_nil, List.length_map]
      exact length_of_covers_one (rowTiles_split hrows).covers (by omega)

/-- **A fanned-out matmul stages its input as long as its layout**: one of a single channel is one tile. -/
theorem matmul_fanout_holds {policy : PlanningPolicy} {shape : Fc.Shape} {elementBytes replicas : Nat}
    {geometry : CubeGeometry} {paddingByte : UInt8} {chained : Option (CubeGeometry × Nat)}
    {staged : StagedInput} {plan : ConvPlan}
    (hplan : ConvPlan.tryNew policy (asConvShape shape) Fc.kernels = .ok plan)
    (hgeometry : cubeGeometry .matmul elementBytes shape.m 1 shape.k = .ok geometry)
    (hchained : ∀ cube length, chained = some (cube, length) → InPlace geometry cube length)
    (h : matmulStagedInput shape geometry paddingByte chained = .ok staged)
    (hreplicas : replicas < plan.tiles.length) :
    0 < replicas → staged.Holds (asConvShape shape).width (asConvShape shape).height := by
  intro hpos
  refine matmulStagedInput_holds hgeometry hchained h ?_
  by_contra hk
  have hdense : (asConvShape shape).layout = .dense :=
    if_pos (show shape.k ≤ maxDenseChannels from (Nat.not_lt.mp hk).trans (by decide))
  have hrow : (asConvShape shape).outputHeight Fc.kernels = 1 := by
    simp [Shape.outputHeight, Shape.kernelProgramming, kernelProgramming, asConvShape, Fc.kernels]
  have hone := tiles_of_denseRow hplan hdense hrow
  omega

end IreeRocket.FanOut
