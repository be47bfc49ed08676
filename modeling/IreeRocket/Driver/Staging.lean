import IreeRocket.Driver.Coefficients
import Mathlib.Logic.Function.Basic

/-!
# Staging coefficients: what recording decides and what execution copies

The part of the HAL driver that decides where a dispatch's coefficients come from. Recording a
dispatch (`stageWeights`, `buildReplicas`) consults the weight cache and fixes what execution will do:
pack the binding, read a cached packing, or copy one from another context. Executing it performs the
packing and the copies and publishes their results.

The state holds the IREE buffers with their write generations, the GEM allocations the driver makes,
the cache, the recorded command buffers and the executions that are under way. Buffers and GEM
allocations are named by numbers. `apply_ops_until_dispatch` holds no lock, so what it does for one
dispatch is a list of single steps (`Dispatch.staging`): reading a generation, copying, packing and
publishing, in the order of the source, then the job. Between any two of them other executions,
recordings and writes may take theirs.

A recording is one step: it reads the binding's generation once, and every lookup is against that
number. A write is one step too, its bytes and the generation it ends with. An execution may fail at
any step (`Action.abort`), which stands for the kernel calls and the staging of the other operands.
Only what concerns coefficients is kept of a dispatch: its other operands reach the rest of the state
through the bytes it writes, which are arbitrary.
-/

namespace IreeRocket.Driver

open Conv Weights WeightCache

/-- An IREE buffer: its bytes and its write generation, a `u64` counter. -/
structure Buffer where
  bytes : Bytes
  generation : Nat

/-- A range of a buffer. -/
structure BufferRef where
  buffer : Nat
  offset : Nat
  length : Nat
  deriving DecidableEq

/-! ### Recorded operations -/

inductive CopySource
  | binding (buffer offset : Nat)
  /-- A packing cached on another context, with the binding it was packed from. -/
  | shared (source weightBuffer : Nat)
  deriving DecidableEq

structure WeightPublish where
  key : Key
  bytes : Nat
  deriving DecidableEq

/-- A copy into the command buffer's own scratch, applied before the job that reads it. -/
structure StagedCopy where
  source : CopySource
  length : Nat
  scratch : Nat
  publish : Option (WeightPublish × Nat)
  deriving DecidableEq

structure WeightPacking where
  weightBuffer : Nat
  weightOffset : Nat
  weightLength : Nat
  scratch : Nat
  scratchLength : Nat
  plan : WeightPlan
  deriving DecidableEq

/-- What a replica needs to know about the home context's coefficients. -/
structure WeightFanoutSource where
  key : Option Key
  generation : Nat
  publishable : Bool
  length : Nat
  deriving DecidableEq

/-- What a job's coefficient address names. -/
inductive Operand
  | gem (handle : Nat)
  | binding (ref : BufferRef)
  deriving DecidableEq

structure StagedWeights where
  operand : Operand
  packing : Option WeightPacking
  scratch : Option Nat
  publish : Option WeightPublish
  fanout : WeightFanoutSource
  deriving DecidableEq

inductive ReplicaSource
  | host (gem : Nat)
  | binding (buffer offset : Nat)
  deriving DecidableEq

/-- A sibling context's coefficients. -/
inductive ReplicaWeights
  | direct (buffer : Nat) (source : ReplicaSource) (length : Nat)
  | packed (buffer : Nat) (copy : Option (ReplicaSource × Nat × Option WeightPublish))
  deriving DecidableEq

structure Replica where
  context : Nat
  weights : ReplicaWeights
  deriving DecidableEq

/-- A recorded dispatch. Execution never reads `fanout`, what recording found. -/
structure Dispatch where
  weights : BufferRef
  plan : WeightPlan
  operand : Operand
  stagedCopies : List StagedCopy
  weightPacking : Option WeightPacking
  weightScratch : Option Nat
  weightPublish : Option WeightPublish
  replicas : List Replica
  output : BufferRef
  fanout : WeightFanoutSource
  deriving DecidableEq

inductive Transfer
  | fill (target : BufferRef) (pattern : Bytes)
  | update (target : BufferRef) (source : Bytes)
  | copy (source target : BufferRef)
  deriving DecidableEq

inductive RecordedOp
  | transfer (op : Transfer)
  | dispatch (op : Dispatch)
  deriving DecidableEq

def Transfer.target : Transfer → BufferRef
  | fill target _ | update target _ | copy _ target => target

/-- `recorded_write_target`. Every dispatch has an output compaction. -/
def RecordedOp.writeTarget : RecordedOp → Nat
  | transfer op => op.target.buffer
  | dispatch op => op.output.buffer

/-- A command buffer: the NPU context it is recorded against, the sibling contexts its dispatches may
fan out to, and its operations. -/
structure CommandBuffer where
  context : Nat
  siblings : List Nat
  ops : List RecordedOp

/-- One step of staging a dispatch's coefficients. -/
inductive StagingStep
  /-- Read the generation that a publication will carry: a buffer's, or zero. -/
  | note (buffer : Option Nat)
  | copy (source : ReplicaSource) (length gem : Nat)
  | pack (packing : WeightPacking)
  | publish (publish : WeightPublish) (gem : Nat)
  deriving DecidableEq

/-- A queued execution of a command buffer: the operation it is at, how many staging steps of that
operation it has taken (one more once its job is submitted), and the generation it noted last. -/
structure Execution where
  commandBuffer : Nat
  cursor : Nat
  staged : Nat
  generation : Nat
  deriving DecidableEq

def Execution.next (execution : Execution) : Execution :=
  { execution with cursor := execution.cursor + 1, staged := 0, generation := 0 }

structure State where
  buffers : Nat → Buffer
  gems : Nat → Bytes
  nextGem : Nat
  cache : Cache
  commandBuffers : Nat → CommandBuffer
  /-- One place for each execution ever queued, empty once it has ended. -/
  executions : List (Option Execution)

/-- A convolution or matmul dispatch call, as far as its coefficients go. -/
structure DispatchRequest where
  coefficients : Coefficients
  weightsPacked : Bool
  epilogueAdd : Bool
  weights : BufferRef
  output : BufferRef

/-- At most `tiles - 1` siblings, so that no context is given nothing to do. -/
def CommandBuffer.fanoutContexts (cb : CommandBuffer) (tiles : Nat) : List Nat :=
  if tiles < 2 then [] else cb.siblings.take (tiles - 1)

namespace State

/-! ### Memory -/

/-- `RocketGemBuffer::new`: the kernel hands the allocation out zeroed, under the number
`nextGem`. -/
def allocate (s : State) (length : Nat) : State :=
  { s with
      gems := Function.update s.gems s.nextGem (List.replicate (max length 1) 0)
      nextGem := s.nextGem + 1 }

/-- `copy_nonoverlapping` of `bytes` to the start of an allocation. -/
def writeGem (s : State) (gem : Nat) (bytes : Bytes) : State :=
  { s with gems := Function.update s.gems gem (store (s.gems gem) 0 bytes) }

/-- Bytes of a buffer change, and `note_write` bumps its generation. -/
def writeBuffer (s : State) (buffer offset : Nat) (bytes : Bytes) : State :=
  { s with
      buffers := Function.update s.buffers buffer
        { bytes := store (s.buffers buffer).bytes offset bytes
          generation := wrap64 ((s.buffers buffer).generation + 1) } }

/-- A host write through a mapping, refused outside the buffer. -/
def mapWrite (s : State) (buffer offset : Nat) (bytes : Bytes) : Option State :=
  if offset + bytes.length ≤ (s.buffers buffer).bytes.length then
    some (s.writeBuffer buffer offset bytes)
  else none

/-- The bytes a binding names from `offset` on. -/
def bindingBytes (s : State) (buffer offset length : Nat) : Bytes :=
  load (s.buffers buffer).bytes offset length

def publish (settings : Settings) (s : State) (publish : WeightPublish) (generation gem : Nat) :
    State :=
  { s with cache := s.cache.publish settings publish.key generation gem publish.bytes }

/-! ### Recording -/

/-- `stage_direct`, for coefficients packed at compile time. -/
def stageDirect (s : State) (cb : CommandBuffer) (ref : BufferRef) :
    State × StagedWeights × List StagedCopy :=
  let fanout := { key := none, generation := 0, publishable := false, length := ref.length }
  let direct (operand : Operand) : StagedWeights :=
    { operand, packing := none, scratch := none, publish := none, fanout }
  if cb.context = 0 then (s, direct (.binding ref), [])
  else
    let scratch := s.nextGem
    (s.allocate ref.length, direct (.gem scratch),
      [{ source := .binding ref.buffer ref.offset, length := ref.length, scratch, publish := none }])

/-- The cache is asked unless the command buffer has a recorded writer of the binding. -/
def lookupUnless (settings : Settings) (s : State) (pendingWriter : Bool) (key : Key)
    (generation : Nat) : Option Nat × Cache :=
  if pendingWriter then (none, s.cache) else s.cache.lookup settings key generation

def lookupOtherUnless (settings : Settings) (s : State) (pendingWriter : Bool) (key : Key)
    (generation : Nat) : Option Nat :=
  if pendingWriter then none else s.cache.lookupOtherContext settings key generation

/-- A cached packing where one is valid, else a copy of another context's, else a packing of its
own. -/
def stageWeights (settings : Settings) (s : State) (cb : CommandBuffer) (ref : BufferRef)
    (geometry : Geometry) (plan : WeightPlan) : State × StagedWeights × List StagedCopy :=
  let key : Key :=
    { buffer := ref.buffer, offset := ref.offset, length := ref.length, geometry
      context := cb.context }
  let generation := (s.buffers ref.buffer).generation
  let pendingWriter := cb.ops.any fun op => op.writeTarget == ref.buffer
  let fanout : WeightFanoutSource :=
    { key := some key, generation, publishable := !pendingWriter, length := geometry.scratchLength }
  let publish : WeightPublish := { key, bytes := geometry.scratchLength }
  let found := s.lookupUnless settings pendingWriter key generation
  let s := { s with cache := found.2 }
  match found.1 with
  | some cached =>
    (s, { operand := .gem cached, packing := none, scratch := some cached, publish := none, fanout },
      [])
  | none =>
    let scratch := s.nextGem
    match s.lookupOtherUnless settings pendingWriter key generation with
    | some other =>
      (s.allocate geometry.scratchLength,
        { operand := .gem scratch, packing := none, scratch := some scratch, publish := none
          fanout },
        [{ source := .shared other ref.buffer, length := geometry.scratchLength, scratch
           publish := some (publish, scratch) }])
    | none =>
      (s.allocate geometry.scratchLength,
        { operand := .gem scratch
          packing := some
            { weightBuffer := ref.buffer, weightOffset := ref.offset, weightLength := ref.length
              scratch, scratchLength := geometry.scratchLength, plan }
          scratch := some scratch
          publish := some publish
          fanout }, [])

/-- A replica's packed coefficients: a hit on its context, or a copy of the home packing. -/
def packedReplica (settings : Settings) (s : State) (home : Nat) (key : Key)
    (fanout : WeightFanoutSource) : State × ReplicaWeights :=
  let found := s.lookupUnless settings (!fanout.publishable) key fanout.generation
  let s := { s with cache := found.2 }
  match found.1 with
  | some buffer => (s, .packed buffer none)
  | none =>
    let publish := if fanout.publishable then some { key, bytes := fanout.length } else none
    (s.allocate fanout.length, .packed s.nextGem (some (.host home, fanout.length, publish)))

def buildReplica (settings : Settings) (s : State) (ref : BufferRef) (staged : StagedWeights)
    (context : Nat) : State × ReplicaWeights :=
  match staged.scratch, staged.fanout.key with
  | some home, some key => s.packedReplica settings home { key with context } staged.fanout
  | _, _ =>
    (s.allocate staged.fanout.length,
      .direct s.nextGem (.binding ref.buffer ref.offset) staged.fanout.length)

def buildReplicas (settings : Settings) (ref : BufferRef) (staged : StagedWeights) :
    State → List Nat → State × List Replica
  | s, [] => (s, [])
  | s, context :: contexts =>
    let built := s.buildReplica settings ref staged context
    let rest := buildReplicas settings ref staged built.1 contexts
    (rest.1, { context, weights := built.2 } :: rest.2)

/-- `cb.ops.push(op)`. -/
def push (s : State) (commandBuffer : Nat) (op : RecordedOp) : State :=
  let cb := s.commandBuffers commandBuffer
  { s with commandBuffers :=
      Function.update s.commandBuffers commandBuffer { cb with ops := cb.ops ++ [op] } }

/-- The end of the dispatch arms: replicas for the contexts the tiles spread over, then the recorded
operation. -/
def recordStaged (settings : Settings) (commandBuffer : Nat) (request : DispatchRequest)
    (tiles : Nat) (plan : WeightPlan) (staged : State × StagedWeights × List StagedCopy) : State :=
  let contexts :=
    if request.epilogueAdd then []
    else (staged.1.commandBuffers commandBuffer).fanoutContexts tiles
  let built := buildReplicas settings request.weights staged.2.1 staged.1 contexts
  built.1.push commandBuffer (.dispatch
    { weights := request.weights
      plan
      operand := staged.2.1.operand
      stagedCopies := staged.2.2
      weightPacking := staged.2.1.packing
      weightScratch := staged.2.1.scratch
      weightPublish := staged.2.1.publish
      replicas := built.2
      output := request.output
      fanout := staged.2.1.fanout })

/-- A dispatch call. A refused one records nothing. -/
def recordDispatch (settings : Settings) (s : State) (commandBuffer : Nat)
    (request : DispatchRequest) : State :=
  match request.coefficients.convPlan, request.coefficients.weightPlan with
  | .ok conv, .ok plan =>
    let cb := s.commandBuffers commandBuffer
    if request.weightsPacked then
      match plan.packedBytes with
      | .ok bytes =>
        if bytes ≤ request.weights.length then
          recordStaged settings commandBuffer request conv.tiles.length plan
            (s.stageDirect cb request.weights)
        else s
      | .error _ => s
    else
      match request.coefficients.geometry request.weights.length with
      | some geometry =>
        recordStaged settings commandBuffer request conv.tiles.length plan
          (s.stageWeights settings cb request.weights geometry plan)
      | none => s
  | _, _ => s

/-! ### Execution -/

end State

/-- A staged copy. The generation of a plain binding is never published. -/
def StagedCopy.staging (copy : StagedCopy) : List StagingStep :=
  (match copy.source with
    | .binding buffer offset =>
      [.note none, .copy (.binding buffer offset) copy.length copy.scratch]
    | .shared source weightBuffer =>
      [.note (some weightBuffer), .copy (.host source) copy.length copy.scratch]) ++
  match copy.publish with
  | some (publish, scratch) => [.publish publish scratch]
  | none => []

/-- The packing. The generation is read before the bytes. -/
def Dispatch.packingSteps (op : Dispatch) : List StagingStep :=
  match op.weightPacking with
  | none => []
  | some packing =>
    [.note (some packing.weightBuffer), .pack packing] ++
    match op.weightPublish, op.weightScratch with
    | some publish, some scratch => [.publish publish scratch]
    | _, _ => []

/-- A replica's coefficients. The generation they are published under is read after the copy. -/
def Replica.staging (packing : Option WeightPacking) (replica : Replica) : List StagingStep :=
  match replica.weights with
  | .direct buffer source length => [.copy source length buffer]
  | .packed _ none => []
  | .packed buffer (some (source, length, publish)) =>
    .copy source length buffer ::
    match publish, packing with
    | some publish, some packing => [.note (some packing.weightBuffer), .publish publish buffer]
    | some publish, none => [.note (some publish.key.buffer), .publish publish buffer]
    | none, _ => []

/-- What `apply_ops_until_dispatch` does for a dispatch before it hands the job out. -/
def Dispatch.staging (op : Dispatch) : List StagingStep :=
  op.stagedCopies.flatMap StagedCopy.staging ++ op.packingSteps ++
    op.replicas.flatMap (Replica.staging op.weightPacking)

namespace State

def replicaSource (s : State) : ReplicaSource → Nat → Bytes
  | .host gem, length => (s.gems gem).take length
  | .binding buffer offset, length => s.bindingBytes buffer offset length

/-- A failing packing leaves the destination alone. -/
def applyWeightPacking (s : State) (packing : WeightPacking) : Option State := do
  let denseLen ← packing.plan.denseBytes.toOption
  guard (denseLen ≤ packing.weightLength)
  let dense := s.bindingBytes packing.weightBuffer packing.weightOffset denseLen
  let packed ←
    (packing.plan.pack dense ((s.gems packing.scratch).take packing.scratchLength)).toOption
  some (s.writeGem packing.scratch packed.2)

/-- One staging step, with the generation noted so far; `none` where it fails. -/
def applyStep (settings : Settings) (s : State) (generation : Nat) :
    StagingStep → Option (State × Nat)
  | .note (some buffer) => some (s, (s.buffers buffer).generation)
  | .note none => some (s, 0)
  | .copy source length gem => some (s.writeGem gem (s.replicaSource source length), generation)
  | .pack packing => (s.applyWeightPacking packing).map (·, generation)
  | .publish publish gem => some (s.publish settings publish generation gem, generation)

/-- `pattern` over a range of `length` bytes. -/
def fillBytes (pattern : Bytes) (length : Nat) : Bytes :=
  (List.replicate length pattern).flatten.take length

/-- What a transfer writes to its target. -/
def transferBytes (s : State) : Transfer → Bytes
  | .fill target pattern => fillBytes pattern target.length
  | .update _ source => source
  | .copy source target => s.bindingBytes source.buffer source.offset target.length

/-- An execution that has not ended. -/
def execution (s : State) (index : Nat) : Option Execution := s.executions.getD index none

/-- The operation an execution is at. -/
def operation (s : State) (execution : Execution) : Option RecordedOp :=
  (s.commandBuffers execution.commandBuffer).ops[execution.cursor]?

def setExecution (s : State) (index : Nat) (execution : Option Execution) : State :=
  { s with executions := s.executions.set index execution }

/-- The state after an execution's write to a buffer: the execution moves on, or ends if the write was
refused. -/
def wrote (s : State) (index : Nat) (execution : Execution) : Option State → State
  | some s => s.setExecution index (some execution.next)
  | none => s.setExecution index none

/-- An execution applies a transfer, takes the next staging step of a dispatch, or submits its job. -/
def advance (settings : Settings) (s : State) (index : Nat) : State :=
  match s.execution index with
  | none => s
  | some execution =>
    match s.operation execution with
    | none => s.setExecution index none
    | some (.transfer op) =>
      s.wrote index execution (s.mapWrite op.target.buffer op.target.offset (s.transferBytes op))
    | some (.dispatch op) =>
      match op.staging[execution.staged]? with
      | some step =>
        match s.applyStep settings execution.generation step with
        | some (s, generation) =>
          s.setExecution index (some { execution with staged := execution.staged + 1, generation })
        | none => s.setExecution index none
      | none => s.setExecution index (some { execution with staged := op.staging.length + 1 })

/-- A submitted job has finished. `result` is what it leaves to compact, `none` where the compaction
is elided. -/
def finish (s : State) (index : Nat) (result : Option Bytes) : State :=
  match s.execution index with
  | none => s
  | some execution =>
    match s.operation execution with
    | some (.dispatch op) =>
      if op.staging.length < execution.staged then
        match result with
        | none => s.setExecution index (some execution.next)
        | some bytes =>
          s.wrote index execution (if bytes.length ≤ op.output.length then
            s.mapWrite op.output.buffer op.output.offset bytes else none)
      else s
    | _ => s

end State

/-! ### Steps -/

inductive Action
  | record (commandBuffer : Nat) (op : Transfer)
  | dispatch (commandBuffer : Nat) (request : DispatchRequest)
  /-- A host write or a `queue_*` operation. -/
  | write (buffer offset : Nat) (bytes : Bytes)
  /-- `queue_execute`. -/
  | execute (commandBuffer : Nat)
  | advance (index : Nat)
  | finish (index : Nat) (result : Option Bytes)
  /-- An execution fails. -/
  | abort (index : Nat)

def step (settings : Settings) (s : State) : Action → State
  | .record commandBuffer op => s.push commandBuffer (.transfer op)
  | .dispatch commandBuffer request => s.recordDispatch settings commandBuffer request
  | .write buffer offset bytes => (s.mapWrite buffer offset bytes).getD s
  | .execute commandBuffer =>
    { s with executions := s.executions ++ [some ⟨commandBuffer, 0, 0, 0⟩] }
  | .advance index => s.advance settings index
  | .finish index result => s.finish index result
  | .abort index => s.setExecution index none

end IreeRocket.Driver
