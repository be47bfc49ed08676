import IreeRocket.Driver.ExecutableDecode

/-!
# The cubes of a resolved dispatch

Which cube a dispatch would pack each of its inputs to, and which one its own job leaves in scratch. Both
are computed from what the dispatch resolved to.
-/

namespace IreeRocket.Driver

open Conv Layout

/-- `ElementwiseCube::new` over the extents of a shape. -/
def ElementwiseGeometry.cube (extents : ElementwiseGeometry) (elementBytes : Nat) :
    Except Status CubeGeometry :=
  elementwiseCube extents.width extents.height extents.channels elementBytes

namespace ResolvedShape

/-- The geometry input `binding` is looked up with, where it is looked up at all. -/
def inputCube (u : ResolvedShape) (binding : Nat) : Except Status (Option CubeGeometry) :=
  match u, binding with
  | conv2d shape _ _, 0 => do
    let geometry ← orInvalid (cubeGeometry .conv shape.precision.elementBytes shape.width shape.height
      shape.inChannels)
    return if shape.layout = .surfaces then some geometry else none
  | conv2d shape kernels true, 3 => do
    unlessErr (shape.precision = .fp16 ∧ shape.outChannels % 16 = 0) Status.invalidArgument
    let geometry ← elementwiseCube (shape.outputWidth kernels) (shape.outputHeight kernels)
      shape.outChannels 2
    return some geometry
  | matmul shape, 0 => do
    let geometry ← orInvalid (cubeGeometry .matmul shape.precision.elementBytes shape.m 1 shape.k)
    return if shape.k > 1 then some geometry else none
  | pooling shape, 0 => do
    let geometry ← orInvalid (cubeGeometry .pooling shape.precision.elementBytes shape.inputWidth
      shape.inputHeight shape.inputChannels)
    return some geometry
  | elementwiseUnary shape, 0 => some <$> shape.geometry.cube 2
  | elementwiseBinary shape, 0 => some <$> shape.geometry.cube 2
  | elementwiseBinary shape, 1 => some <$> shape.geometry.cube 2
  | elementwiseLut shape, 0 => some <$> shape.geometry.cube 1
  | _, _ => .ok none

/-- The geometry of the cube the dispatch publishes. A fanned-out dispatch has no single cube, and a
staged accumulator's blocks are no feature cube. -/
def publishedCube (u : ResolvedShape) (fannedOut : Bool) : Except Status (Option CubeGeometry) :=
  match u with
  | conv2d shape kernels epilogueAdd => do
    let geometry ← orInvalid (cubeGeometry .conv shape.precision.outputElementBytes
      (shape.outputWidth kernels) (shape.outputHeight kernels) shape.outChannels)
    let offered := shape.outputAtomBytes = 16 ∧ !fannedOut ∧ !shape.precision.writesAccumulators ∧
      geometry.isWholeAtom
    if epilogueAdd then
      unlessErr (shape.precision = .fp16 ∧ shape.outChannels % 16 = 0) Status.invalidArgument
      let sum ← elementwiseCube (shape.outputWidth kernels) (shape.outputHeight kernels)
        shape.outChannels 2
      return if offered then some sum else none
    else return if offered then some geometry else none
  | matmul shape => do
    let geometry ← orInvalid (cubeGeometry .matmul shape.precision.elementBytes shape.m 1 shape.n)
    let offered := !fannedOut ∧ Hal.outputChannelBlockBytes (asConvShape shape) = 16 ∧
      geometry.isWholeAtom
    return if offered then some geometry else none
  | pooling shape => do
    let geometry ← orInvalid (cubeGeometry .pooling shape.precision.elementBytes shape.outputWidth
      shape.outputHeight shape.inputChannels)
    return if geometry.isExact then some geometry else none
  | elementwiseUnary { geometry := extents, .. } | elementwiseBinary { geometry := extents, .. } => do
    let geometry ← extents.cube 2
    return if geometry.isExact then some geometry else none
  | elementwiseLut shape => do
    let geometry ← shape.geometry.cube 1
    return if geometry.isExact then some geometry else none

end ResolvedShape

end IreeRocket.Driver
