import IreeRocket.Driver.Coefficients
import IreeRocket.Driver.DispatchMarks
import IreeRocket.Driver.ElementwiseProgram
import IreeRocket.Driver.ExecutableDecode

/-!
# Recording a dispatch

`dispatch_impl`: a dispatch resolves its shape, checks its bindings, looks its inputs up in the recording,
plans, and is recorded last. Each of its arms is a script over the recording, in the order of the source.

The buffers a context allocates, their addresses and the sibling contexts a tiled dispatch fans out to are
parameters (`Context`). An allocation does not fail, and what only sizes one is left out.
-/

namespace IreeRocket.Driver

open Conv Layout TensorLayout Weights Hal Marking

/-- A dispatch as a script: its lookups are answered with a cube to read in place, or none. -/
abbrev DispatchScript := Script Read (Option OutputCube) DispatchStop

/-- The programs of a dispatch, one per task. -/
inductive Programs
  | dpu (tasks : List (List RegCmd))
  | ppu (tasks : List (List Pooling.PpuCmd))
  deriving DecidableEq

/-- DMA addresses of the four buffers a convolution's program names. -/
structure Buffers where
  input : Nat
  weights : Nat
  bias : Nat
  output : Nat
  deriving DecidableEq, Repr

/-- What a dispatch allocates a buffer for. -/
inductive Slot
  | input
  | operand
  | weights
  | bias
  | output
  | residual
  | sum
  deriving DecidableEq, Repr

/-- The context a command buffer is recorded against. -/
structure Context where
  /-- Context zero, whose jobs may name a binding's own buffer. -/
  home : Bool
  /-- The sibling contexts tiles may fan out to. -/
  siblings : Nat
  /-- The handle of the buffer a dispatch allocates. -/
  scratch : Slot → Nat
  /-- The DMA address of a handle. -/
  address : Nat → Nat
  /-- The buffers of a sibling's copies. -/
  replica : Nat → Buffers
  floats : FloatOps
  banks : LutFunction → List Nat × List Nat

/-! ### Ways to stop -/

/-- `return INVALID_ARGUMENT` unless a condition holds. -/
def require (cond : Prop) [Decidable cond] : DispatchScript Unit :=
  .lift (unlessErr cond (.refused .invalidArgument))

/-- `let Ok(..) = .. else { return INVALID_ARGUMENT }`. -/
def orRefuse {α : Type} (x : Except String α) : DispatchScript α :=
  .lift (x.mapError fun _ => .refused .invalidArgument)

/-- A planning function whose refusal is `INVALID_ARGUMENT`. -/
def planned {α : Type} (x : Planner α) : DispatchScript α :=
  .lift (x.mapError fun
    | .refused _ => .refused .invalidArgument
    | .panicked message => .panicked message)

/-- A call outside any panic guard, of a function that returns no result. -/
def unguarded {α : Type} (x : Planner α) : DispatchScript α :=
  .lift (x.mapError fun
    | .refused error => .panicked error.message
    | .panicked message => .panicked message)

/-- `catch_unwind`: whatever goes wrong inside is `INTERNAL`. -/
def caught {α : Type} (x : Planner α) : DispatchScript α :=
  .lift (x.mapError fun _ => .refused .internal)

def ofStatus {α : Type} (x : Except Status α) : DispatchScript α := .lift (x.mapError .refused)

/-- `refs[index]`. -/
def ref (refs : List Binding) (index : Nat) : DispatchScript Binding :=
  .lift (okOr refs[index]? (.panicked "index out of bounds"))

def chainable (binding : Binding) (consumer : CubeGeometry) (declared : Bool) :
    DispatchScript (Option OutputCube) :=
  .query (.chain binding consumer declared)

def noteDense (binding : Binding) : DispatchScript Unit := do
  let _ ← Script.query (.dense binding)

/-! ### Sizes and addresses -/

/-- A size that does not overflow and that the binding holds. -/
def Fits (bytes : Option Nat) (binding : Binding) : Prop := bytes.any (· ≤ binding.length) = true

instance (bytes : Option Nat) (binding : Binding) : Decidable (Fits bytes binding) :=
  inferInstanceAs (Decidable (_ = _))

/-- `dense_bytes`. -/
def denseSize (geometry : CubeGeometry) : Option Nat :=
  checkedMul geometry.pixelCount geometry.bytesPerPixel

def rocketFp16BiasStorageSize (paddedOutputChannels : Nat) : Except String Nat := do
  unlessErr (paddedOutputChannels ≠ 0) "Rocket FP16 bias channel count must be nonzero"
  okOr (checkedMul paddedOutputChannels 4) "Rocket FP16 bias storage size overflows usize"

/-- `trailing_layout`: the last push constant, where an executable declares one. -/
def trailingLayout (declaredDenseReaders declaredLayout : Bool) (constants : Bytes) : DispatchLayout :=
  if (!declaredDenseReaders && !declaredLayout) || constants.length < 4 then ⟨0, 0⟩
  else
    let word := u32FromNeBytes (constants.drop (constants.length - 4))
    if declaredLayout then .fromWord word else ⟨0, min word 0xffff⟩

section Addresses

variable (ctx : Context)

/-- The address of the buffer allocated for a slot. -/
def Context.scratchAddress (slot : Slot) : Nat := ctx.address (ctx.scratch slot)

/-- `stage_direct`: the binding itself on context zero, a copy of it elsewhere. -/
def stageDirect (binding : Binding) (slot : Slot) : Nat :=
  if ctx.home then wrap32 (binding.buffer.getD 0 + wrap32 binding.offset) else ctx.scratchAddress slot

/-- `fanout_contexts`, by their number. -/
def Context.fanoutContexts (tiles : Nat) : Nat := if tiles < 2 then 0 else min ctx.siblings (tiles - 1)

/-- The buffers of a tile's program: tiles alternate over the home context and the replicas. -/
def buffersFor (home : Buffers) (replicas tile : Nat) : Buffers :=
  match tile % (replicas + 1) with
  | 0 => home
  | index + 1 => ctx.replica index

end Addresses

/-! ### Relocation -/

/-- The value of an address register, which is one field wide. -/
def RegCmd.word (c : RegCmd) : Nat := (c.fields.map Bits.value).headD 0

/-- `relocate_one`. -/
def relocateOne (register : Reg) (address : Nat) (keepTileOffset : Bool) (commands : List RegCmd) :
    Planner (List RegCmd) := do
  assertThat (address % 16 = 0) "NPU DMA address for a register is not 16-byte aligned"
  assertThat (commands.countP (·.register = register) = 1) "expected exactly one relocation"
  return commands.map fun c =>
    if c.register = register then
      ⟨register, [⟨32, wrap32 (address + if keepTileOffset then RegCmd.word c else 0)⟩]⟩
    else c

/-- `relocate`, and `relocate_with_exact_output` where the output keeps no tile offset. -/
def relocate (buffers : Buffers) (keepOutputOffset : Bool) (commands : List RegCmd) :
    Planner (List RegCmd) := do
  let commands ← relocateOne .cnaFeatureDataAddr buffers.input true commands
  let commands ← relocateOne .cnaDcompAddr0 buffers.weights true commands
  let commands ← relocateOne .dpuRdmaBsBaseAddr buffers.bias true commands
  relocateOne .dpuDstBaseAddr buffers.output keepOutputOffset commands

def relocateStagedAccumulator (buffers : Buffers) (tile : AccumulatorOutputTile)
    (commands : List RegCmd) : Planner (List RegCmd) := do
  assertThat (tile.scratchOffset < 2 ^ 32) "accumulator tile scratch offset exceeds u32"
  let output := buffers.output + tile.scratchOffset
  assertThat (output < 2 ^ 32) "accumulator tile DMA address overflow"
  relocate { buffers with output } false commands

/-- The programs of a plan whose tiles share one output image, with their replicas. -/
def sharedTasks (ctx : Context) (plan : ConvPlan) (contexts : Nat → Nat) (home : Buffers) :
    Planner (List (List RegCmd) × Nat) := do
  let replicas := contexts plan.tiles.length
  let programs ← plan.tiles.mapM (tileProgram plan .sharedImage)
  let tasks ← programs.zipIdx.mapM fun (program, tile) =>
    relocate (buffersFor ctx home replicas tile) true program
  return (tasks, replicas)

/-- The same for accumulators, each tile in a scratch range of its own. -/
def stagedTasks (ctx : Context) (plan : ConvPlan) (contexts : Nat → Nat) (home : Buffers)
    (scratchBytes : Nat) : Planner (List (List RegCmd) × Nat) := do
  let replicas := contexts plan.tiles.length
  let layout ← plan.accumulatorOutputLayout
  let programs ← plan.tiles.mapM (tileProgram plan .contiguousTile)
  assertThat (layout.scratchBytes = scratchBytes) "assertion failed: staged.scratch_bytes == scratch_bytes"
  let tasks ← (programs.zip layout.tiles).zipIdx.mapM fun ((program, staged), tile) =>
    relocateStagedAccumulator (buffersFor ctx home replicas tile) staged program
  return (tasks, replicas)

/-! ### The arms -/

/-- A dispatch as it is recorded: what it compacts into its output binding and the cube it publishes. -/
def recordOf (work : Programs) (output : Binding) (pixelCount bytesPerPixel : Nat)
    (published : Option (Nat × CubeGeometry)) (layout : DispatchLayout) : DispatchRecord Programs where
  work := work
  outputCompaction := some {
    outputBuffer := output.buffer, outputOffset := output.offset, outputPixelCount := pixelCount
    bytesPerPixel }
  outputCube := published.map fun (handle, geometry) => {
    denseBuffer := output.buffer, denseOffset := output.offset, handle, geometry }
  layout := layout
  chainedReaders := 0
  denseReadSeen := false

section Arms

variable (ctx : Context) (constants : Bytes) (refs : List Binding)

/-- An input that may be a producer's cube, else a dense read. -/
def featureInput (binding : Binding) (geometry : CubeGeometry) (looksUp declared : Bool) :
    DispatchScript (Option OutputCube) := do
  let chained ← if looksUp then chainable binding geometry declared else pure none
  if chained.isNone then noteDense binding
  return chained

/-- `elementwise_operand`: the address of a producer's cube, or of a packing of the binding. -/
def elementwiseOperand (binding : Binding) (cube : CubeGeometry) (declared : Bool) (slot : Slot) :
    DispatchScript Nat := do
  match ← featureInput binding cube true declared with
  | some producer => return ctx.address producer.handle
  | none =>
    require (Fits (denseSize cube) binding)
    return ctx.scratchAddress slot

/-- The cube an element-wise dispatch publishes. -/
def elementwiseRecord (commands : List RegCmd) (output : Binding) (cube : CubeGeometry)
    (layout : DispatchLayout) : DispatchRecord Programs :=
  recordOf (.dpu [commands]) output cube.pixelCount cube.bytesPerPixel
    (if cube.isExact then some (ctx.scratch .output, cube) else none) layout

def unaryArm (executable : ElementwiseUnaryExecutable) : DispatchScript (DispatchRecord Programs) := do
  let shape ← orRefuse (executable.resolveShape constants)
  let cube ← ofStatus
    (elementwiseCube shape.geometry.width shape.geometry.height shape.geometry.channels 2)
  require (2 ≤ refs.length)
  let layout := trailingLayout executable.runtimeDenseReaders executable.runtimeLayout constants
  let inputAddr ← elementwiseOperand ctx (← ref refs 0) cube (layout.inputPacked 0) .input
  let output ← ref refs 1
  require (Fits (denseSize cube) output)
  let commands ← unguarded
    (buildUnaryRegcmd shape { inputAddr, outputAddr := ctx.scratchAddress .output })
  return elementwiseRecord ctx commands output cube layout

def binaryArm (executable : ElementwiseBinaryExecutable) :
    DispatchScript (DispatchRecord Programs) := do
  let shape ← orRefuse (executable.resolveShape constants)
  let cube ← ofStatus
    (elementwiseCube shape.geometry.width shape.geometry.height shape.geometry.channels 2)
  require (3 ≤ refs.length)
  let layout := trailingLayout executable.runtimeDenseReaders executable.runtimeLayout constants
  let intermediateAddr ← elementwiseOperand ctx (← ref refs 0) cube (layout.inputPacked 0) .input
  let wAddr ← elementwiseOperand ctx (← ref refs 1) cube (layout.inputPacked 1) .operand
  let output ← ref refs 2
  require (Fits (denseSize cube) output)
  let commands ← unguarded
    (buildAddRegcmd shape { intermediateAddr, wAddr, outputAddr := ctx.scratchAddress .output })
  return elementwiseRecord ctx commands output cube layout

def lutArm (executable : ElementwiseLutExecutable) : DispatchScript (DispatchRecord Programs) := do
  let shape ← orRefuse (executable.resolveShape constants)
  let cube ← ofStatus
    (elementwiseCube shape.geometry.width shape.geometry.height shape.geometry.channels 1)
  require (2 ≤ refs.length)
  let layout := trailingLayout executable.runtimeDenseReaders executable.runtimeLayout constants
  let inputAddr ← elementwiseOperand ctx (← ref refs 0) cube (layout.inputPacked 0) .input
  let output ← ref refs 1
  require (Fits (denseSize cube) output)
  let commands ← unguarded
    (buildLutRegcmd ctx.floats shape { inputAddr, outputAddr := ctx.scratchAddress .output }
      (executable.function.table ctx.banks))
  return elementwiseRecord ctx commands output cube layout

/-- Both cubes of a pool are strided by their pixels rounded up to four. -/
def poolingArm (executable : PoolingExecutable) : DispatchScript (DispatchRecord Programs) := do
  let shape ← orRefuse (executable.resolveShape constants)
  require (2 ≤ refs.length)
  let input ← ref refs 0
  let output ← ref refs 1
  let elementBytes := shape.precision.elementBytes
  let inputGeometry ← planned (cubeGeometry .pooling elementBytes shape.inputWidth
    shape.inputHeight shape.inputChannels)
  let outputGeometry ← planned (cubeGeometry .pooling elementBytes shape.outputWidth
    shape.outputHeight shape.inputChannels)
  let bytesPerPixel := inputGeometry.bytesPerPixel
  let packedBytesPerPixel := inputGeometry.packedBytesPerPixel
  require (Fits (checkedMul inputGeometry.pixelCount bytesPerPixel) input ∧
    Fits (checkedMul outputGeometry.pixelCount bytesPerPixel) output ∧ elementBytes ≠ 0)
  let inputScratchBytes ← orRefuse
    (nc1hwc2StorageSize inputGeometry.surfacePixelCount packedBytesPerPixel)
  let outputScratchBytes ← orRefuse
    (nc1hwc2StorageSize outputGeometry.surfacePixelCount packedBytesPerPixel)
  require (inputScratchBytes < 2 ^ 32 ∧ outputScratchBytes < 2 ^ 32)
  let layout := trailingLayout executable.runtimeDenseReaders executable.runtimeLayout constants
  let chained ← featureInput input inputGeometry true (layout.inputPacked 0)
  let inputAddr := chained.elim (ctx.scratchAddress .input) fun cube => ctx.address cube.handle
  let tasks ← unguarded
    (Pooling.emitPooling shape { inputAddr, outputAddr := ctx.scratchAddress .output })
  return recordOf (.ppu tasks) output outputGeometry.pixelCount bytesPerPixel
    (if outputGeometry.isExact then some (ctx.scratch .output, outputGeometry) else none) layout

/-- The coefficients' address. A packed tensor is bound as it is; a dense one is packed into scratch. -/
def matmulWeights (executable : MatmulExecutable) (shape : Fc.Shape) (weights : Binding) :
    DispatchScript Nat := do
  let scratchBytes ← orRefuse
    (rocketWeightStorageSize 1 1 shape.k shape.n shape.precision.elementBytes)
  require (scratchBytes < 2 ^ 32)
  if executable.weightsPacked then
    require (scratchBytes ≤ weights.length)
    return stageDirect ctx weights .weights
  else
    let _ ← planned (WeightPlan.forMatmul policy shape)
    return ctx.scratchAddress .weights

def matmulBias (shape : Fc.Shape) (bias : Binding) : DispatchScript Nat := do
  if shape.precision = .fp16 then
    let _ ← orRefuse (rocketFp16BiasStorageSize (asConvShape shape).paddedOutChannels)
    return ctx.scratchAddress .bias
  else return stageDirect ctx bias .bias

/-- The input's scratch, and whether it is a cube. -/
def matmulInputScratch (shape : Fc.Shape) (geometry : CubeGeometry) : DispatchScript Nat := do
  if 1 < shape.k then orRefuse (nc1hwc2StorageSize shape.m geometry.packedBytesPerPixel)
  else .lift (okOr (checkedMul shape.m geometry.bytesPerPixel) (.refused .invalidArgument))

def matmulArm (executable : MatmulExecutable) : DispatchScript (DispatchRecord Programs) := do
  let shape ← orRefuse (executable.resolveShape constants)
  require (4 ≤ refs.length)
  let input ← ref refs 0
  let weights ← ref refs 1
  let bias ← ref refs 2
  let output ← ref refs 3
  let elementSize := shape.precision.elementBytes
  let inputZeroPoint := (shape.precision.quantization.map Quantization.inputZeroPoint).getD 0
  let inputGeometry ← planned (cubeGeometry .matmul elementSize shape.m 1 shape.k)
  let outputGeometry ← planned (cubeGeometry .matmul elementSize shape.m 1 shape.n)
  require (Fits (checkedMul shape.m inputGeometry.bytesPerPixel) input ∧
    Fits (checkedProduct shape.k [shape.n, elementSize]) weights ∧
    Fits (checkedMul shape.n elementSize) bias ∧
    Fits (checkedMul shape.m outputGeometry.bytesPerPixel) output ∧
    0 ≤ inputZeroPoint ∧ inputZeroPoint ≤ 255)
  let inputScratchBytes ← matmulInputScratch shape inputGeometry
  require (inputScratchBytes < 2 ^ 32)
  let layout := trailingLayout executable.runtimeDenseReaders executable.runtimeLayout constants
  let chained ← featureInput input inputGeometry (1 < shape.k) (layout.inputPacked 0)
  let inputAddr := chained.elim (ctx.scratchAddress .input) fun cube => ctx.address cube.handle
  let weightsAddr ← matmulWeights ctx executable shape weights
  let biasAddr ← matmulBias ctx shape bias
  let outputScratchBytes ← orRefuse (nc1hwc2StorageSize shape.m outputGeometry.bytesPerPixel)
  require (outputScratchBytes < 2 ^ 32)
  let (tasks, replicas) ← caught do
    let plan ← Fc.Plan.tryNew policy shape
    sharedTasks ctx plan.conv ctx.fanoutContexts
      { input := inputAddr, weights := weightsAddr, bias := biasAddr
        output := ctx.scratchAddress .output }
  noteDense weights
  noteDense bias
  let publishes := replicas = 0 ∧ outputChannelBlockBytes (asConvShape shape) = 16 ∧
    outputGeometry.isWholeAtom
  return recordOf (.dpu tasks) output shape.m outputGeometry.bytesPerPixel
    (if publishes then some (ctx.scratch .output, outputGeometry) else none) layout

/-- The coefficients' address, as their kind is checked and staged. -/
def convWeights (executable : Conv2dExecutable) (shape : Shape) (kernels : Kernels) (weights : Binding) :
    DispatchScript Nat := do
  let elementSize := shape.precision.elementBytes
  if executable.weightsPacked then
    let bytes ← planned (WeightPlan.forConv shape kernels).packedBytes
    require (bytes ≤ weights.length)
    return stageDirect ctx weights .weights
  else if shape.depthwise then
    require (Fits (checkedProduct kernels.1 [kernels.2, shape.inChannels, elementSize]) weights)
    let _ ← unguarded (shape.tryKernelProgramming kernels)
    return ctx.scratchAddress .weights
  else
    require (Fits (checkedProduct kernels.1 [kernels.2, shape.inChannels, shape.outChannels, elementSize])
      weights)
    let _ ← orRefuse (rocketWeightStorageSize kernels.1 kernels.2 shape.inChannels shape.outChannels
      elementSize)
    return ctx.scratchAddress .weights

def convBias (shape : Shape) (bias : Binding) : DispatchScript Nat := do
  match shape.precision with
  | .fp16 =>
    require (Fits (checkedMul shape.outChannels shape.precision.elementBytes) bias)
    let _ ← orRefuse (rocketFp16BiasStorageSize shape.paddedOutChannels)
    return ctx.scratchAddress .bias
  | .int8 _ | .int8Accumulator _ =>
    require (Fits (checkedMul shape.outChannels 4) bias)
    return ctx.scratchAddress .bias
  | _ => return stageDirect ctx bias .bias

/-- The residual epilogue: one EW task adds the skip to the convolution's cube, after every tile. -/
def residualEpilogue (executable : Conv2dExecutable) (shape : Shape) (kernels : Kernels)
    (layout : DispatchLayout) (scratchBytes : Nat) (skip output : Binding) :
    DispatchScript (List RegCmd × CubeGeometry) := do
  let width := shape.outputWidth kernels
  let height := shape.outputHeight kernels
  let cube ← ofStatus (elementwiseCube width height shape.outChannels 2)
  let cubeBytes ← planned cube.storageBytes
  .lift (unlessErr (cubeBytes = scratchBytes) (.refused .internal))
  let chained ← featureInput skip cube true (layout.inputPacked 3)
  require ((chained.isSome = true ∨ Fits (denseSize cube) skip) ∧ Fits (denseSize cube) output)
  let add ← unguarded <| buildAddRegcmdWithRelu
    { geometry := ⟨width, height, shape.outChannels⟩, op := .add }
    { intermediateAddr := ctx.scratchAddress .output
      wAddr := chained.elim (ctx.scratchAddress .residual) fun producer => ctx.address producer.handle
      outputAddr := ctx.scratchAddress .sum }
    (executable.epilogueActivation = .relu)
  return (add, cube)

/-- A convolution's input: a producer's cube, a packing into surfaces, or, in a dense mode, the binding. -/
def convInput (shape : Shape) (geometry : CubeGeometry) (declared : Bool) (input weights bias : Binding) :
    DispatchScript Nat := do
  let surfaces : Bool := shape.layout = .surfaces
  let chained ← featureInput input geometry surfaces declared
  noteDense weights
  noteDense bias
  match chained with
  | some cube => return ctx.address cube.handle
  | none =>
    if surfaces then
      let _ ← orRefuse (nc1hwc2StorageSize geometry.pixelCount geometry.packedBytesPerPixel)
      return ctx.scratchAddress .input
    else return stageDirect ctx input .input

/-- The plan of a convolution and the programs of its tiles, inside the panic guard. A residual epilogue
keeps them on one queue. -/
def convTasks (shape : Shape) (kernels : Kernels) (epilogueAdd : Bool) (scratchBytes : Nat)
    (buffers : Buffers) : Planner (List (List RegCmd) × Nat) := do
  let plan ← ConvPlan.tryNew policy shape kernels
  let contexts := if epilogueAdd then fun _ => 0 else ctx.fanoutContexts
  if shape.precision.writesAccumulators then stagedTasks ctx plan contexts buffers scratchBytes
  else sharedTasks ctx plan contexts buffers

def convArm (executable : Conv2dExecutable) : DispatchScript (DispatchRecord Programs) := do
  let (shape, kernels) ← orRefuse (executable.resolveShape constants)
  let outputIndex := if executable.epilogueAdd then 4 else 3
  require (outputIndex + 1 ≤ refs.length)
  require (executable.epilogueAdd = true → shape.precision = .fp16 ∧ shape.outChannels % 16 = 0)
  let input ← ref refs 0
  let weights ← ref refs 1
  let bias ← ref refs 2
  let output ← ref refs outputIndex
  let inputGeometry ← planned (cubeGeometry .conv shape.precision.elementBytes shape.width shape.height
    shape.inChannels)
  require (Fits (denseSize inputGeometry) input)
  let layout := trailingLayout executable.runtimeDenseReaders executable.runtimeLayout constants
  let inputAddr ← convInput ctx shape inputGeometry (layout.inputPacked 0) input weights bias
  let weightsAddr ← convWeights ctx executable shape kernels weights
  let biasAddr ← convBias ctx shape bias
  let scratchBytes := max (shape.outputScratchBytes kernels) 1
  let (tasks, replicas) ← caught <|
    convTasks ctx shape kernels executable.epilogueAdd scratchBytes
      { input := inputAddr, weights := weightsAddr, bias := biasAddr
        output := ctx.scratchAddress .output }
  let outputGeometry ← planned (cubeGeometry .conv shape.precision.outputElementBytes
    (shape.outputWidth kernels) (shape.outputHeight kernels) shape.outChannels)
  let publishes : Prop := shape.outputAtomBytes = 16 ∧ replicas = 0 ∧
    shape.precision.writesAccumulators = false ∧ outputGeometry.isWholeAtom = true
  if executable.epilogueAdd then
    let skip ← ref refs 3
    let (add, cube) ← residualEpilogue ctx executable shape kernels layout scratchBytes skip output
    return recordOf (.dpu (tasks ++ [add])) output cube.pixelCount cube.bytesPerPixel
      (if publishes then some (ctx.scratch .sum, cube) else none) layout
  else
    return recordOf (.dpu tasks) output outputGeometry.pixelCount outputGeometry.bytesPerPixel
      (if publishes then some (ctx.scratch .output, outputGeometry) else none) layout

/-- `dispatch_impl` up to the push. The push constants are absent where a length comes without data. An
indirect binding has no buffer yet. -/
def dispatchImpl (ctx : Context) (ukernel : UkernelShape) (constants : Option Bytes)
    (refs : List Binding) : DispatchScript (DispatchRecord Programs) := do
  let constants ← .lift (okOr constants (.refused .invalidArgument))
  .lift (unlessErr (refs.all (·.buffer.isSome) = true) .unimplemented)
  match ukernel with
  | .conv2d executable => convArm ctx constants refs executable
  | .matmul executable _ => matmulArm ctx constants refs executable
  | .pooling executable => poolingArm ctx constants refs executable
  | .elementwiseUnary executable => unaryArm ctx constants refs executable
  | .elementwiseBinary executable => binaryArm ctx constants refs executable
  | .elementwiseLut executable => lutArm ctx constants refs executable

end Arms

abbrev Recording := List (Recorded Programs)

/-- A call of `dispatch`: how it ends, and the recording it leaves. -/
def dispatch (ctx : Context) (ukernel : UkernelShape) (constants : Option Bytes) (refs : List Binding)
    (ops : Recording) : Except DispatchStop Unit × Recording :=
  match (recording Programs).run (dispatchImpl ctx ukernel constants refs) ops with
  | (.ok record, ops) => (.ok (), ops ++ [.dispatch record])
  | (.error stop, ops) => (.error stop, ops)

end IreeRocket.Driver
