import IreeRocket.Driver.Matmul

/-!
# Cubes published and cubes read in place

Recording a dispatch computes, for each input binding that can read a cube, the geometry its input
would be packed to, looks for a producer's cube on the command buffer (`chainableCube`) and publishes
the cube its own hardware job leaves in scratch. What a record carries beyond that is a parameter `ω`;
the geometries of the kernels are in `ResolvedCubes`.
The trace output of `ROCKET_LAYOUT_DEBUG` is left out.
-/

namespace IreeRocket.Driver

open Conv Layout

/-! ### Recorded operations -/

/-- `iree_hal_buffer_ref_t`; a live buffer is known by its DMA address. -/
structure Binding where
  buffer : Option Nat
  offset : Nat
  length : Nat
  deriving DecidableEq, Repr

/-- `dma_range`. -/
def dmaRange (buffer : Option Nat) (offset length : Nat) : Option (Nat × Nat) :=
  buffer.map fun base => (base + offset, base + offset + length)

/-- Half-open ranges that share a byte. -/
def overlaps (a b : Nat × Nat) : Bool := a.1 < b.2 && b.1 < a.2

/-- The cube a later dispatch may read in place, in the scratch `handle`. -/
structure OutputCube where
  denseBuffer : Option Nat
  denseOffset : Nat
  handle : Nat
  geometry : CubeGeometry
  deriving DecidableEq, Repr

/-- What the compaction of a dispatch writes. -/
structure OutputCompaction where
  outputBuffer : Option Nat
  outputOffset : Nat
  outputPixelCount : Nat
  bytesPerPixel : Nat
  deriving DecidableEq, Repr

structure DispatchRecord (ω : Type) where
  work : ω
  outputCompaction : Option OutputCompaction
  outputCube : Option OutputCube
  layout : DispatchLayout
  chainedReaders : Nat
  denseReadSeen : Bool

inductive Recorded (ω : Type)
  | fill (target : Binding) (pattern : List UInt8)
  | update (target : Binding) (source : List UInt8)
  | copy (source target : Binding)
  | dispatch (record : DispatchRecord ω)

variable {ω : Type}

/-- `recorded_write_extent`, as the range it covers. -/
def recordedWriteExtent : Recorded ω → Option (Nat × Nat)
  | .fill target _ | .update target _ | .copy _ target =>
    dmaRange target.buffer target.offset target.length
  | .dispatch record => record.outputCompaction.bind fun compaction =>
      dmaRange compaction.outputBuffer compaction.outputOffset
        (compaction.outputPixelCount * compaction.bytesPerPixel)

def writesOver (op : Recorded ω) (range : Nat × Nat) : Bool :=
  (recordedWriteExtent op).any fun wrote => overlaps wrote range

/-- The place of the most recent operation that writes over a range. -/
def lastWriter (ops : List (Recorded ω)) (range : Nat × Nat) : Option Nat :=
  ((List.range ops.length).reverse).find? fun i => (ops[i]?).any fun op => writesOver op range

/-- One more reader of the cube at place `i`. -/
def countReader (ops : List (Recorded ω)) (i : Nat) : List (Recorded ω) :=
  ops.modify i fun
    | .dispatch record => .dispatch { record with chainedReaders := record.chainedReaders + 1 }
    | op => op

/-- `chainable_cube`: the cube to read in place, if any, and the operations with its reader counted. -/
def chainableCube (ops : List (Recorded ω)) (binding : Binding) (consumer : CubeGeometry)
    (declared : Bool) : Except Status (Option OutputCube × List (Recorded ω)) :=
  if !declared || binding.buffer.isNone then .ok (none, ops)
  else
    match consumer.canChain with
    | .error _ => .error .internal
    | .ok _ =>
      match dmaRange binding.buffer binding.offset (consumer.pixelCount * consumer.bytesPerPixel) with
      | none => .ok (none, ops)
      | some want =>
        match (lastWriter ops want).bind fun i => ops[i]?.map (i, ·) with
        | some (i, .dispatch record) =>
          match record.outputCube with
          | none => .ok (none, ops)
          | some cube =>
            if dmaRange cube.denseBuffer cube.denseOffset
                (cube.geometry.pixelCount * cube.geometry.bytesPerPixel) ≠ some want then
              .ok (none, ops)
            else
              match chainIdentity cube.geometry consumer with
              | .error _ => .error .internal
              | .ok _ => .ok (some cube, countReader ops i)
        | _ => .ok (none, ops)

/-- `note_dense_read`. -/
def noteDenseRead (ops : List (Recorded ω)) (binding : Binding) : List (Recorded ω) :=
  match dmaRange binding.buffer binding.offset binding.length with
  | none => ops
  | some read => ops.map fun op =>
      match op with
      | .dispatch record =>
        if writesOver op read then .dispatch { record with denseReadSeen := true } else op
      | _ => op

/-- `compaction_elidable`. -/
def compactionElidable (denseReaders chainedReaders : Nat) (denseReadSeen : Bool) : Bool :=
  0 < denseReaders && chainedReaders == denseReaders && !denseReadSeen

/-! ### Element-wise cubes -/

/-- `let Ok(..) = .. else { return INVALID_ARGUMENT }`. -/
def orInvalid {ε α : Type} (x : Except ε α) : Except Status α := x.mapError fun _ => .invalidArgument

/-- `ElementwiseCube::new`. -/
def elementwiseCube (width height channels elementBytes : Nat) : Except Status CubeGeometry := do
  let geometry ← orInvalid (cubeGeometry .elementwise elementBytes width height channels)
  let scratchBytes ← orInvalid geometry.storageBytes
  unlessErr (scratchBytes < 2 ^ 32) Status.invalidArgument
  return geometry

end IreeRocket.Driver
