import IreeRocket.Driver.ScratchPool
import IreeRocket.Lib.Runs
import Mathlib.Logic.Function.Basic

/-!
# `queue_execute` and the buffers of its tasks

The workers' loop as a state machine over the scratch pool, the command buffers and the executions in
progress, whose steps interleave in any order. Whether a step that calls the kernel, or that applies
host operations, succeeds is part of the action. A command buffer's reference count is the list of who
holds a reference. A failed step leaves the loop, which drops the register-command buffers of the
dispatch at hand; the command buffer's reference is released after that.

`buffers_unrecycled`: buffers of tasks in flight stay out of the pool, and unclosed, exactly in the
runs where no `PREP_BO` fails and no `SUBMIT` fails behind a submitted task of its dispatch.
-/

namespace IreeRocket.Queue

open ScratchPool Custody

/-! ### State -/

/-- A GEM buffer a task can name: driver scratch, a packing shared through the weight cache, or an IREE
buffer. -/
inductive Bo
  | scratch (bo : Nat)
  | packing (bo : Nat)
  | binding (bo : Nat)
  deriving DecidableEq

/-- Which file one task of a dispatch is submitted on and the buffers it names there. -/
structure TaskTarget where
  fd : Nat
  context : Nat
  inBoHandles : List Bo
  outBoHandles : List Bo
  written : outBoHandles ≠ []
  deriving DecidableEq

def TaskTarget.names (target : TaskTarget) : List Bo := target.inBoHandles ++ target.outBoHandles

/-- One element of `regcmd_tasks` with the target it is submitted on. -/
structure RecordedTask where
  regcmd : List UInt64
  target : TaskTarget
  deriving DecidableEq

/-- A task with the buffer its program lies in. -/
structure Task where
  cmdBuf : ScratchBuffer
  target : TaskTarget
  deriving DecidableEq

def Task.names (task : Task) : List Bo := .scratch task.cmdBuf.bo :: task.target.names

/-- Who holds a reference to a command buffer. -/
inductive Holder
  | application
  | execution (r : Nat)
  deriving DecidableEq

/-- The dispatches recorded so far, the scratch they own and the packings they share. -/
structure CommandBuffer where
  ops : List (List RecordedTask)
  scratch : List ScratchBuffer
  packings : List Nat
  holders : List Holder

def CommandBuffer.empty : CommandBuffer := ⟨[], [], [], []⟩

/-- Where an execution stands. `waiting` lists the handles of its first task in flight that `PREP_BO`
has not returned for. -/
inductive Phase
  | idle
  | applying
  | flushing (tasks : List Task)
  | submitting (tasks : List Task)
  | waiting (handles : List Bo)
  | completing
  | leaving
  | done
  deriving DecidableEq

/-- One call of `queue_execute`; `inFlight` are the tasks submitted and not yet waited for. -/
structure Execution where
  commandBuffer : Nat
  cursor : Nat
  cmdBufs : List ScratchBuffer
  inFlight : List Task
  phase : Phase

def Execution.start : Execution := ⟨0, 0, [], [], .idle⟩

/-- `cached` are the packings the weight cache holds. -/
structure State where
  pool : Pool
  cached : List Nat
  nextPacking : Nat
  commandBuffers : Nat → CommandBuffer
  executions : Nat → Execution

def State.init : State := ⟨.empty, [], 0, fun _ => .empty, fun _ => .start⟩

/-- The command buffer owns the buffer, or keeps it alive. -/
def CommandBuffer.Keeps (cb : CommandBuffer) : Bo → Prop
  | .scratch bo => bo ∈ cb.scratch.map (·.bo)
  | .packing bo => bo ∈ cb.packings
  | .binding _ => True

instance (cb : CommandBuffer) (bo : Bo) : Decidable (cb.Keeps bo) := by
  cases bo <;> simp only [CommandBuffer.Keeps] <;> infer_instance

namespace State

def setCommandBuffer (s : State) (i : Nat) (cb : CommandBuffer) : State :=
  { s with commandBuffers := Function.update s.commandBuffers i cb }

def setExecution (s : State) (r : Nat) (e : Execution) : State :=
  { s with executions := Function.update s.executions r e }

def setPhase (s : State) (r : Nat) (phase : Phase) : State :=
  s.setExecution r { s.executions r with phase := phase }

/-! ### Recording -/

/-- A scratch buffer for the command buffer, at record time. -/
def recordScratch (policy : Policy) (i : Nat) (s : State) (request : Nat × Nat) : State :=
  let taken := s.pool.take policy request.1 request.2
  let cb := s.commandBuffers i
  { s with pool := taken.2 }.setCommandBuffer i { cb with scratch := cb.scratch ++ [taken.1] }

/-- A dispatch: its scratch, then its tasks, which name that scratch, cubes of earlier dispatches of
the command buffer, packings it shares and bindings. -/
def record (policy : Policy) (s : State) (i : Nat) (requests : List (Nat × Nat))
    (tasks : List RecordedTask) : State :=
  if .application ∈ (s.commandBuffers i).holders then
    let s' := requests.foldl (recordScratch policy i) s
    let cb := s'.commandBuffers i
    if ∀ task ∈ tasks, ∀ bo ∈ task.target.names, cb.Keeps bo then
      s'.setCommandBuffer i { cb with ops := cb.ops ++ [tasks] }
    else s
  else s

/-- Drops one reference; the last one destroys the command buffer. -/
def unref (policy : Policy) (s : State) (i : Nat) (holder : Holder) : State :=
  let cb := s.commandBuffers i
  let holders := cb.holders.erase holder
  if holders = [] then
    { s with pool := s.pool.giveAll policy cb.scratch }.setCommandBuffer i .empty
  else s.setCommandBuffer i { cb with holders := holders }

/-! ### Executing -/

/-- `cmd_bufs` goes out of scope. -/
def dropCmdBufs (policy : Policy) (s : State) (r : Nat) : State :=
  let e := s.executions r
  { s with pool := s.pool.giveAll policy e.cmdBufs }.setExecution r { e with cmdBufs := [] }

/-- `break 'result`. -/
def leave (policy : Policy) (s : State) (r : Nat) : State :=
  (s.dropCmdBufs policy r).setPhase r .leaving

/-- One register-command buffer, page rounded, on the file the task runs on. -/
def allocateCmdBuf (policy : Policy) (r : Nat) (s : State) (task : RecordedTask) : State :=
  let bytes := (task.regcmd.length * 8 + 4095) / 4096 * 4096
  let taken := s.pool.take policy task.target.fd bytes
  let e := s.executions r
  { s with pool := taken.2 }.setExecution r { e with cmdBufs := e.cmdBufs ++ [taken.1] }

/-- Every register-command buffer of the dispatch, before any task is submitted. -/
def prepare (policy : Policy) (s : State) (r : Nat) (tasks : List RecordedTask) : State :=
  let s' := tasks.foldl (allocateCmdBuf policy r) s
  s'.setPhase r (.flushing
    (((s'.executions r).cmdBufs.zip tasks).map fun pair => ⟨pair.1, pair.2.target⟩))

/-- The wait loop turns to the next task in flight. -/
def nextWait (s : State) (r : Nat) : State :=
  match (s.executions r).inFlight with
  | [] => s.setPhase r .completing
  | task :: _ => s.setPhase r (.waiting task.target.outBoHandles)

/-- One step of an execution; `ok` tells whether the calls it makes succeed. -/
def advance (policy : Policy) (s : State) (r : Nat) (ok : Bool) : State :=
  let e := s.executions r
  match e.phase with
  | .idle => s
  | .applying =>
    if ok then
      match (s.commandBuffers e.commandBuffer).ops[e.cursor]? with
      | none => s.leave policy r
      | some tasks =>
        let s := s.setExecution r { e with cursor := e.cursor + 1 }
        if tasks = [] then s
        else if ∃ task ∈ tasks, task.regcmd = [] then s.leave policy r
        else s.prepare policy r tasks
    else s.leave policy r
  | .flushing tasks => if ok then s.setPhase r (.submitting tasks) else s.leave policy r
  | .submitting [] => s.nextWait r
  | .submitting (task :: rest) =>
    if ok then
      s.setExecution r { e with inFlight := e.inFlight ++ [task], phase := .submitting rest }
    else s.leave policy r
  | .waiting [] => (s.setExecution r { e with inFlight := e.inFlight.tail }).nextWait r
  | .waiting (_ :: handles) => if ok then s.setPhase r (.waiting handles) else s.leave policy r
  | .completing =>
    -- the hung-job floor and the compaction's own checks may still refuse the result
    if ok then (s.dropCmdBufs policy r).setPhase r .applying else s.leave policy r
  | .leaving => (s.unref policy e.commandBuffer (.execution r)).setPhase r .done
  | .done => s

end State

/-! ### Steps -/

inductive Action
  | create (i : Nat)
  | retain (i : Nat)
  | release (i : Nat)
  | record (i : Nat) (requests : List (Nat × Nat)) (tasks : List RecordedTask)
  /-- A fresh packing, the cache taking or dropping its reference, and a dispatch served from it. -/
  | pack (i : Nat)
  | publish (i bo : Nat)
  | hit (i bo : Nat)
  | evict (bo : Nat)
  /-- `device::destroy`. -/
  | clear
  | execute (r i : Nat)
  | advance (r : Nat) (ok : Bool)

def step (policy : Policy) (s : State) : Action → State
  | .create i =>
    if (s.commandBuffers i).holders = [] then
      s.setCommandBuffer i { s.commandBuffers i with holders := [.application] }
    else s
  | .retain i =>
    let cb := s.commandBuffers i
    if .application ∈ cb.holders then
      s.setCommandBuffer i { cb with holders := .application :: cb.holders }
    else s
  | .release i =>
    if .application ∈ (s.commandBuffers i).holders then s.unref policy i .application else s
  | .record i requests tasks => s.record policy i requests tasks
  | .pack i =>
    let cb := s.commandBuffers i
    if .application ∈ cb.holders then
      { s with nextPacking := s.nextPacking + 1 }.setCommandBuffer i
        { cb with packings := s.nextPacking :: cb.packings }
    else s
  | .publish i bo =>
    if bo ∈ (s.commandBuffers i).packings then { s with cached := bo :: s.cached } else s
  | .hit i bo =>
    let cb := s.commandBuffers i
    if .application ∈ cb.holders ∧ bo ∈ s.cached then
      s.setCommandBuffer i { cb with packings := bo :: cb.packings }
    else s
  | .evict bo => { s with cached := s.cached.erase bo }
  | .clear => { s with pool := s.pool.clear }
  | .execute r i =>
    let cb := s.commandBuffers i
    let e := s.executions r
    if .application ∈ cb.holders ∧ e.phase = .idle then
      (s.setCommandBuffer i { cb with holders := .execution r :: cb.holders }).setExecution r
        { e with commandBuffer := i, cursor := 0, phase := .applying }
    else s
  | .advance r ok => s.advance policy r ok

/-- The buffer was returned to the pool, or freed. -/
def State.Recycled (s : State) : Bo → Prop
  | .scratch bo => bo ∈ s.pool.released
  | .packing bo => bo ∉ s.cached ∧ ∀ i, bo ∉ (s.commandBuffers i).packings
  | .binding _ => False

/-- No buffer that a task submitted and not yet waited for names has been recycled. -/
def State.Unrecycled (s : State) : Prop :=
  ∀ r, ∀ task ∈ (s.executions r).inFlight, ∀ bo ∈ task.names, ¬ s.Recycled bo

/-- The step is not a failing `PREP_BO`, nor a `SUBMIT` failing behind a submitted task of its
dispatch. -/
def Orderly (s : State) : Action → Prop
  | .advance r false =>
    match (s.executions r).phase with
    | .submitting (_ :: _) => (s.executions r).inFlight = []
    | .waiting (_ :: _) => False
    | _ => True
  | _ => True

end IreeRocket.Queue
