import IreeRocket.Lib.Runs
import Mathlib.Algebra.BigOperators.Group.List.Basic
import Mathlib.Algebra.GroupWithZero.Nat
import Mathlib.Logic.Function.Basic

/-!
# The worker pool

`enqueue_on` puts a unit on the channel of one worker; `worker_main` takes its units off in order,
waits for each one's semaphores, runs it and signals or fails its signal list. The pool is a state
machine whose actions interleave in any order: enqueues, the host's signals, `shutdown`'s closing of
one channel, and the steps of the workers. What a work closure does is part of the action: it returns a
status or panics. A panic unwinds the worker's thread, which drops the receiver and every unit on its
channel.

The semaphores are IREE's. A worker sees them through `Semaphores`, and the results rest on what their
documentation promises (`Semaphores.Lawful`): signalling or failing a list settles its points for good.

A worker's history (the units it received, those it ran and what became of them) is kept in its state,
and every call of a worker on a unit's signal list is kept beside the semaphores it changes (`Board`).
`Worker.Moves` says what one step can do, and the invariant `Inv` relates the histories and the calls, in
every run, to the units the pool accepted.
-/

namespace IreeRocket.WorkerPool

open Runs
open scoped List

/-! ### Semaphores -/

/-- A semaphore with a payload value of its timeline. -/
structure Point where
  semaphore : Nat
  value : Nat
  deriving DecidableEq

/-- Reaching `q` reaches `p`. -/
def Point.Covers (q p : Point) : Prop := q.semaphore = p.semaphore ∧ p.value ≤ q.value

/-- What `iree_hal_semaphore_wait` on a point finds. -/
inductive WaitResult
  | pending
  | reached
  | failed (status : Nat)
  deriving DecidableEq

/-- The semaphores as a worker uses them, with `σ` their joint state. -/
structure Semaphores (σ : Type) where
  wait : σ → Point → WaitResult
  signalAll : List Point → σ → σ
  failAll : List Point → Nat → σ → σ

/-- Signalling a list reaches its points, failing it fails their semaphores, and a wait that once
returned returns ever after. -/
structure Semaphores.Lawful {σ : Type} (sems : Semaphores σ) : Prop where
  signal_settles : ∀ {s points} {q p : Point}, q ∈ points → q.Covers p →
    sems.wait (sems.signalAll points s) p ≠ .pending
  fail_settles : ∀ {s points status} {q p : Point}, q ∈ points → q.Covers p →
    sems.wait (sems.failAll points status s) p ≠ .pending
  signal_keeps : ∀ {s points p}, sems.wait s p ≠ .pending →
    sems.wait (sems.signalAll points s) p ≠ .pending
  fail_keeps : ∀ {s points status p}, sems.wait s p ≠ .pending →
    sems.wait (sems.failAll points status s) p ≠ .pending

/-! ### State -/

/-- The two semaphore lists of a `Unit`. -/
structure QueuedUnit where
  wait : List Point
  signal : List Point
  deriving DecidableEq

variable {k : Nat}

/-- An accepted unit with its number in the order of all enqueues and the worker it went to. The pool
has `k + 1` workers. -/
structure Ticket (k : Nat) where
  id : Nat
  worker : Fin (k + 1)
  unit : QueuedUnit
  deriving DecidableEq

/-- Where `worker_main` stands: in `recv`, in `wait_all` with the points it has still to wait for, in
the work closure, or gone. -/
inductive Phase (k : Nat)
  | receiving
  | waiting (ticket : Ticket k) (rest : List Point)
  | working (ticket : Ticket k)
  | returned
  | panicked (ticket : Ticket k)
  deriving DecidableEq

/-- What became of a unit: its list was signalled, it was failed after the wait or after the work, or,
the list being empty, the failure was printed. -/
inductive Outcome
  | signalled
  | waitFailed (status : Nat)
  | workFailed (status : Nat)
  | reported (status : Nat)
  deriving DecidableEq

/-- The work was called. -/
def Outcome.ran : Outcome → Bool
  | .waitFailed _ => false
  | _ => true

/-- A call on a unit's signal list: `signal_all`, or `fail_all` with a status. -/
inductive SignalCall
  | signalAll
  | failAll (status : Nat)
  deriving DecidableEq

/-- The calls that an outcome consists of. -/
def Outcome.calls : Outcome → List SignalCall
  | .signalled => [.signalAll]
  | .waitFailed status | .workFailed status => [.failAll status]
  | .reported _ => []

/-- A worker: whether its sender is still there, its channel, its phase and its history. -/
structure Worker (k : Nat) where
  sender : Bool
  queue : List (Ticket k)
  phase : Phase k
  received : List (Ticket k)
  ran : List (Ticket k)
  settled : List (Ticket k × Outcome)
  deriving DecidableEq

def Worker.spawned : Worker k := ⟨true, [], .receiving, [], [], []⟩

/-- The receiver still exists. -/
def Phase.alive : Phase k → Bool
  | .returned | .panicked _ => false
  | _ => true

/-- The unit the worker took off its channel and has not settled. -/
def Phase.holding : Phase k → List (Ticket k)
  | .waiting ticket _ | .working ticket | .panicked ticket => [ticket]
  | .receiving | .returned => []

/-- The unit whose work was called and has not settled. -/
def Phase.running : Phase k → List (Ticket k)
  | .working ticket | .panicked ticket => [ticket]
  | .receiving | .waiting _ _ | .returned => []

/-- The semaphores, with the calls that the workers made on the signal lists of units. -/
structure Board (k : Nat) (σ : Type) where
  semaphores : σ
  calls : List (Ticket k × SignalCall)

variable {σ : Type}

/-- `signal_all(unit.signal)`. -/
def Board.signalAll (sems : Semaphores σ) (board : Board k σ) (ticket : Ticket k) : Board k σ where
  semaphores := sems.signalAll ticket.unit.signal board.semaphores
  calls := board.calls ++ [(ticket, .signalAll)]

/-- `fail_all(unit.signal, status)`. -/
def Board.failAll (sems : Semaphores σ) (board : Board k σ) (ticket : Ticket k) (status : Nat) :
    Board k σ where
  semaphores := sems.failAll ticket.unit.signal status board.semaphores
  calls := board.calls ++ [(ticket, .failAll status)]

structure Pool (k : Nat) (σ : Type) where
  workers : Fin (k + 1) → Worker k
  accepted : List (Ticket k)
  board : Board k σ

/-- `WorkerPool::new`. -/
def Pool.new (s : σ) : Pool k σ := ⟨fun _ => .spawned, [], ⟨s, []⟩⟩

/-- What a worker sees of the semaphores. -/
def Pool.semaphores (pool : Pool k σ) : σ := pool.board.semaphores

/-- What a work closure does. -/
inductive WorkResult
  | status (code : Nat)
  | panicked
  deriving DecidableEq

/-- A step of `worker_main`: `recv`, one turn of `wait_all`, or the return of the work. -/
inductive WorkerStep
  | receive
  | wait
  | finish (result : WorkResult)
  deriving DecidableEq

inductive Action (k : Nat)
  | enqueue (context : Nat) (unit : QueuedUnit)
  | close (worker : Fin (k + 1))
  | hostSignal (points : List Point)
  | hostFail (points : List Point) (status : Nat)
  | worker (worker : Fin (k + 1)) (step : WorkerStep)
  deriving DecidableEq

/-- The unit is settled and the worker goes back to `recv`. -/
def Worker.settle (worker : Worker k) (ticket : Ticket k) (outcome : Outcome) : Worker k :=
  { worker with phase := .receiving, settled := worker.settled ++ [(ticket, outcome)] }

/-- `receiver.recv()`: blocks on an empty channel, fails on an empty one without a sender. -/
def Worker.receive (worker : Worker k) : Worker k :=
  match worker.phase, worker.queue with
  | .receiving, ticket :: queue =>
    { worker with queue, phase := .waiting ticket ticket.unit.wait,
                  received := worker.received ++ [ticket] }
  | .receiving, [] => if worker.sender then worker else { worker with phase := .returned }
  | _, _ => worker

variable (sems : Semaphores σ)

/-- One turn of `wait_all`; past the last point the work is called. -/
def Worker.wait (worker : Worker k) (board : Board k σ) : Worker k × Board k σ :=
  match worker.phase with
  | .waiting ticket [] =>
    ({ worker with phase := .working ticket, ran := worker.ran ++ [ticket] }, board)
  | .waiting ticket (point :: rest) =>
    match sems.wait board.semaphores point with
    | .pending => (worker, board)
    | .reached => ({ worker with phase := .waiting ticket rest }, board)
    | .failed status =>
      (worker.settle ticket (.waitFailed status), board.failAll sems ticket status)
  | _ => (worker, board)

/-- The work comes back; status zero is OK. -/
def Worker.finish (worker : Worker k) (board : Board k σ) (result : WorkResult) :
    Worker k × Board k σ :=
  match worker.phase with
  | .working ticket =>
    match result with
    | .panicked => ({ worker with phase := .panicked ticket, queue := [] }, board)
    | .status code =>
      if code = 0 then (worker.settle ticket .signalled, board.signalAll sems ticket)
      else if ticket.unit.signal.isEmpty then (worker.settle ticket (.reported code), board)
      else (worker.settle ticket (.workFailed code), board.failAll sems ticket code)
  | _ => (worker, board)

def Worker.step (worker : Worker k) (board : Board k σ) : WorkerStep → Worker k × Board k σ
  | .receive => (worker.receive, board)
  | .wait => worker.wait sems board
  | .finish result => worker.finish sems board result

/-- The worker of a context: `context.min(self.workers.len() - 1)`. -/
def workerIndex (context : Nat) : Fin (k + 1) := ⟨min context k, by omega⟩

/-- `sender.send(unit)` would succeed. -/
def Pool.accepts (pool : Pool k σ) (w : Fin (k + 1)) : Bool :=
  (pool.workers w).sender && (pool.workers w).phase.alive

/-- `enqueue_on`; a refused unit is dropped and the caller gets `UNAVAILABLE`. -/
def Pool.enqueueOn (pool : Pool k σ) (context : Nat) (unit : QueuedUnit) : Pool k σ :=
  let w := workerIndex context
  if pool.accepts w then
    let ticket : Ticket k := ⟨pool.accepted.length, w, unit⟩
    { pool with
      workers := Function.update pool.workers w
        { pool.workers w with queue := (pool.workers w).queue ++ [ticket] }
      accepted := pool.accepted ++ [ticket] }
  else pool

/-- What `shutdown` does to one worker before it joins it. -/
def Pool.close (pool : Pool k σ) (w : Fin (k + 1)) : Pool k σ :=
  { pool with
    workers := Function.update pool.workers w { pool.workers w with sender := false } }

/-- The host changes the semaphores by itself. -/
def Pool.host (pool : Pool k σ) (s : σ) : Pool k σ :=
  { pool with board := { pool.board with semaphores := s } }

def Pool.step (pool : Pool k σ) : Action k → Pool k σ
  | .enqueue context unit => pool.enqueueOn context unit
  | .close w => pool.close w
  | .hostSignal points => pool.host (sems.signalAll points pool.semaphores)
  | .hostFail points status => pool.host (sems.failAll points status pool.semaphores)
  | .worker w step =>
    let after := (pool.workers w).step sems pool.board step
    { pool with workers := Function.update pool.workers w after.1, board := after.2 }

/-! ### What one step of a worker does -/

/-- The worker and the semaphores after `step`. -/
inductive Worker.Moves (worker : Worker k) (board : Board k σ) (step : WorkerStep) :
    Worker k → Board k σ → Prop
  | idle : Moves worker board step worker board
  | receive (ticket : Ticket k) (queue : List (Ticket k)) (hphase : worker.phase = .receiving)
      (hqueue : worker.queue = ticket :: queue) :
      Moves worker board step
        { worker with queue, phase := .waiting ticket ticket.unit.wait,
                      received := worker.received ++ [ticket] } board
  | leave (hphase : worker.phase = .receiving) (hqueue : worker.queue = []) :
      Moves worker board step { worker with phase := .returned } board
  | next (ticket : Ticket k) (point : Point) (rest : List Point)
      (hphase : worker.phase = .waiting ticket (point :: rest)) :
      Moves worker board step { worker with phase := .waiting ticket rest } board
  | start (ticket : Ticket k) (hphase : worker.phase = .waiting ticket []) :
      Moves worker board step
        { worker with phase := .working ticket, ran := worker.ran ++ [ticket] } board
  | settle (ticket : Ticket k) (outcome : Outcome) (board' : Board k σ)
      (hholding : worker.phase.holding = [ticket])
      (hrunning : worker.phase.running = if outcome.ran then [ticket] else [])
      (hintact : ∀ lost, worker.phase ≠ .panicked lost)
      (hreported : ∀ status, outcome = .reported status → ticket.unit.signal = [])
      (hcalls : board'.calls = board.calls ++ outcome.calls.map (ticket, ·))
      (hsettles : ∀ q ∈ ticket.unit.signal, ∀ p, q.Covers p →
        sems.wait board'.semaphores p ≠ .pending)
      (hkeeps : ∀ p, sems.wait board.semaphores p ≠ .pending →
        sems.wait board'.semaphores p ≠ .pending) :
      Moves worker board step (worker.settle ticket outcome) board'
  | panic (ticket : Ticket k) (hphase : worker.phase = .working ticket)
      (hstep : step = .finish .panicked) :
      Moves worker board step { worker with phase := .panicked ticket, queue := [] } board

variable {sems} {board : Board k σ} {worker : Worker k} {turn : WorkerStep}

theorem Worker.receive_moves : worker.Moves sems board .receive worker.receive board := by
  unfold Worker.receive
  split
  next ticket queue hphase hqueue => exact .receive ticket queue hphase hqueue
  next hphase hqueue =>
    split_ifs
    · exact .idle
    · exact .leave hphase hqueue
  · exact .idle

theorem Worker.wait_moves (hlaws : sems.Lawful) :
    worker.Moves sems board .wait (worker.wait sems board).1 (worker.wait sems board).2 := by
  unfold Worker.wait
  split
  next ticket hphase => exact .start ticket hphase
  next ticket point rest hphase =>
    split
    · exact .idle
    · exact .next ticket point rest hphase
    next status _ =>
      refine .settle ticket (.waitFailed status) _ ?_ ?_ ?_ ?_ rfl ?_ ?_
      · rw [hphase]; rfl
      · rw [hphase]; rfl
      · intro lost; rw [hphase]; nofun
      · intro _ h; cases h
      · exact fun q hq p hcovers => hlaws.fail_settles hq hcovers
      · exact fun p hp => hlaws.fail_keeps hp
  · exact .idle

theorem Worker.finish_moves (hlaws : sems.Lawful) (result : WorkResult) :
    worker.Moves sems board (.finish result) (worker.finish sems board result).1
      (worker.finish sems board result).2 := by
  unfold Worker.finish
  split
  next ticket hphase =>
    have hholding : worker.phase.holding = [ticket] := by rw [hphase]; rfl
    have hrunning : worker.phase.running = [ticket] := by rw [hphase]; rfl
    have hintact : ∀ lost, worker.phase ≠ .panicked lost := by
      intro lost
      rw [hphase]
      nofun
    cases result with
    | panicked => exact .panic ticket hphase rfl
    | status code =>
      dsimp only
      split_ifs with hok hempty
      · refine .settle ticket .signalled _ hholding hrunning hintact ?_ rfl ?_ ?_
        · intro _ h; cases h
        · exact fun q hq p hcovers => hlaws.signal_settles hq hcovers
        · exact fun p hp => hlaws.signal_keeps hp
      · refine .settle ticket (.reported code) _ hholding hrunning hintact ?_ ?_ ?_ ?_
        · exact fun _ _ => List.isEmpty_iff.mp hempty
        · exact (List.append_nil _).symm
        · intro q hq
          rw [List.isEmpty_iff.mp hempty] at hq
          exact absurd hq List.not_mem_nil
        · exact fun p hp => hp
      · refine .settle ticket (.workFailed code) _ hholding hrunning hintact ?_ rfl ?_ ?_
        · intro _ h; cases h
        · exact fun q hq p hcovers => hlaws.fail_settles hq hcovers
        · exact fun p hp => hlaws.fail_keeps hp
  · exact .idle

theorem Worker.step_moves (hlaws : sems.Lawful) (step : WorkerStep) :
    worker.Moves sems board step (worker.step sems board step).1 (worker.step sems board step).2 := by
  cases step with
  | receive => exact worker.receive_moves
  | wait => exact worker.wait_moves hlaws
  | finish result => exact worker.finish_moves hlaws result

theorem Worker.Moves.keeps {worker' : Worker k} {board' : Board k σ}
    (h : worker.Moves sems board turn worker' board') {p : Point}
    (hp : sems.wait board.semaphores p ≠ .pending) : sems.wait board'.semaphores p ≠ .pending := by
  cases h with
  | settle ticket outcome board' _ _ _ _ _ _ hkeeps => exact hkeeps p hp
  | _ => exact hp

/-! ### Invariants -/

/-- The units of the pool that went to one worker, in the order of their enqueues. -/
def Pool.assigned (pool : Pool k σ) (w : Fin (k + 1)) : List (Ticket k) :=
  pool.accepted.filter (·.worker = w)

/-- The history of one worker against the units assigned to it. -/
structure Worker.Ok (worker : Worker k) (assigned : List (Ticket k)) : Prop where
  order : worker.received ++ worker.queue <+: assigned
  whole : (∀ lost, worker.phase ≠ .panicked lost) → worker.received ++ worker.queue = assigned
  handled : worker.settled.map Prod.fst ++ worker.phase.holding = worker.received
  called : (worker.settled.filter (·.2.ran)).map Prod.fst ++ worker.phase.running = worker.ran
  reports : ∀ ticket status, (ticket, Outcome.reported status) ∈ worker.settled →
    ticket.unit.signal = []
  drained : worker.phase = .returned → worker.queue = []
  waits : ∀ ticket rest, worker.phase = .waiting ticket rest → rest ⊆ ticket.unit.wait

theorem Worker.Ok.spawned : (Worker.spawned (k := k)).Ok [] where
  order := List.prefix_refl _
  whole _ := rfl
  handled := rfl
  called := rfl
  reports _ _ h := absurd h List.not_mem_nil
  drained _ := rfl
  waits _ _ h := nomatch h

/-- A worker that has not panicked goes through the phases with its history. -/
theorem Worker.Ok.phase {assigned : List (Ticket k)} (h : worker.Ok assigned) {phase : Phase k}
    (hintact : ∀ lost, worker.phase ≠ .panicked lost)
    (hholding : phase.holding = worker.phase.holding)
    (hrunning : phase.running = worker.phase.running)
    (hdrained : phase = .returned → worker.queue = [])
    (hwaits : ∀ ticket rest, phase = .waiting ticket rest → rest ⊆ ticket.unit.wait) :
    ({ worker with phase } : Worker k).Ok assigned where
  order := h.order
  whole _ := h.whole hintact
  handled := by rw [← h.handled, ← hholding]
  called := by rw [← h.called, ← hrunning]
  reports := h.reports
  drained := hdrained
  waits := hwaits

theorem Worker.Ok.moves {assigned : List (Ticket k)} {worker' : Worker k} {board' : Board k σ}
    (h : worker.Ok assigned) (hmoves : worker.Moves sems board turn worker' board') :
    worker'.Ok assigned := by
  cases hmoves with
  | idle => exact h
  | receive ticket queue hphase hqueue =>
    have hwhole := h.whole (by rw [hphase]; nofun)
    have hhandled := h.handled
    have hcalled := h.called
    rw [hphase] at hhandled hcalled
    have horder : (worker.received ++ [ticket]) ++ queue = assigned := by
      rw [← hwhole, hqueue, List.append_assoc]
      rfl
    refine ⟨horder ▸ List.prefix_refl _, fun _ => horder, ?_, hcalled, h.reports, nofun, ?_⟩
    · show worker.settled.map Prod.fst ++ [ticket] = worker.received ++ [ticket]
      rw [← hhandled]
      exact congrArg (· ++ [ticket]) (List.append_nil _).symm
    · intro other rest heq
      cases heq
      exact List.Subset.refl _
  | leave hphase hqueue =>
    refine h.phase (by rw [hphase]; nofun) ?_ ?_ (fun _ => hqueue) nofun
    · rw [hphase]; rfl
    · rw [hphase]; rfl
  | next ticket point rest hphase =>
    refine h.phase (by rw [hphase]; nofun) ?_ ?_ nofun ?_
    · rw [hphase]; rfl
    · rw [hphase]; rfl
    · intro other rest' heq
      cases heq
      exact fun p hp => h.waits ticket _ hphase (List.mem_cons_of_mem _ hp)
  | start ticket hphase =>
    have hhandled := h.handled
    have hcalled := h.called
    rw [hphase] at hhandled hcalled
    refine ⟨h.order, fun _ => h.whole (by rw [hphase]; nofun), hhandled, ?_, h.reports, nofun, nofun⟩
    show (worker.settled.filter (·.2.ran)).map Prod.fst ++ [ticket] = worker.ran ++ [ticket]
    rw [← hcalled]
    exact congrArg (· ++ [ticket]) (List.append_nil _).symm
  | settle ticket outcome board' hholding hrunning hintact hreported hcalls hsettles hkeeps =>
    have hhandled := h.handled
    have hcalled := h.called
    rw [hholding] at hhandled
    rw [hrunning] at hcalled
    refine ⟨h.order, fun _ => h.whole hintact, ?_, ?_, ?_, nofun, nofun⟩
    · show (worker.settled ++ [(ticket, outcome)]).map Prod.fst ++ [] = worker.received
      rw [List.map_append, List.append_nil, ← hhandled]
      rfl
    · show ((worker.settled ++ [(ticket, outcome)]).filter (·.2.ran)).map Prod.fst ++ [] = worker.ran
      rw [List.filter_append, List.map_append, List.append_nil, ← hcalled]
      congr 1
      cases hran : outcome.ran <;> simp [hran]
    · intro other status hmem
      rcases List.mem_append.mp hmem with hold | hnew
      · exact h.reports other status hold
      · cases List.mem_singleton.mp hnew
        exact hreported status rfl
  | panic ticket hphase hstep =>
    have hhandled := h.handled
    have hcalled := h.called
    rw [hphase] at hhandled hcalled
    refine ⟨?_, fun hintact => absurd rfl (hintact ticket), hhandled, hcalled, h.reports, nofun,
      nofun⟩
    exact (List.prefix_append_right_inj _).mpr (List.nil_prefix) |>.trans h.order

/-- The calls on signal lists that a worker's history consists of. -/
def Worker.calls (worker : Worker k) : List (Ticket k × SignalCall) :=
  worker.settled.flatMap fun entry => entry.2.calls.map (entry.1, ·)

/-- The calls made on the signal lists of one worker's units. -/
def Board.callsOf (board : Board k σ) (w : Fin (k + 1)) : List (Ticket k × SignalCall) :=
  board.calls.filter (·.1.worker = w)

variable (sems) in
/-- **The invariant of the pool**, whatever the units do. -/
structure Inv (pool : Pool k σ) : Prop where
  workers : ∀ w, (pool.workers w).Ok (pool.assigned w)
  ids : pool.accepted.map Ticket.id = List.range pool.accepted.length
  calls : ∀ w, pool.board.callsOf w = (pool.workers w).calls
  settles : ∀ w, ∀ entry ∈ (pool.workers w).settled, ∀ q ∈ entry.1.unit.signal, ∀ p, q.Covers p →
    sems.wait pool.semaphores p ≠ .pending

theorem Inv.new (start : σ) : Inv sems (Pool.new (k := k) start) where
  workers _ := .spawned
  ids := rfl
  calls _ := rfl
  settles _ _ h := absurd h List.not_mem_nil

theorem Worker.Moves.settled_mem {worker' : Worker k} {board' : Board k σ}
    (h : worker.Moves sems board turn worker' board') {entry : Ticket k × Outcome}
    (hmem : entry ∈ worker'.settled) :
    entry ∈ worker.settled ∨
      ∀ q ∈ entry.1.unit.signal, ∀ p, q.Covers p → sems.wait board'.semaphores p ≠ .pending := by
  cases h with
  | settle ticket outcome board' _ _ _ _ _ hsettles _ =>
    rcases List.mem_append.mp hmem with hold | hnew
    · exact .inl hold
    · rw [List.mem_singleton.mp hnew]
      exact .inr hsettles
  | _ => exact .inl hmem

/-- A worker that holds only units of its own calls on their lists alone, and as its history says. -/
theorem Worker.Moves.calls {worker' : Worker k} {board' : Board k σ} {w : Fin (k + 1)}
    (h : worker.Moves sems board turn worker' board')
    (hown : ∀ ticket ∈ worker.phase.holding, ticket.worker = w) :
    (board.callsOf w = worker.calls → board'.callsOf w = worker'.calls) ∧
      ∀ w', w' ≠ w → board'.callsOf w' = board.callsOf w' := by
  cases h with
  | settle ticket outcome board' hholding hrunning hintact hreported hcalls _ _ =>
    have hticket : ticket.worker = w := by
      apply hown
      rw [hholding]
      exact List.mem_singleton.mpr rfl
    have hfilter (w' : Fin (k + 1)) : (outcome.calls.map (ticket, ·)).filter (·.1.worker = w') =
        if w' = w then outcome.calls.map (ticket, ·) else [] := by
      split_ifs with hw
      · refine List.filter_eq_self.mpr fun call hcall => ?_
        obtain ⟨_, -, rfl⟩ := List.mem_map.mp hcall
        exact decide_eq_true (hticket.trans hw.symm)
      · refine List.filter_eq_nil_iff.mpr fun call hcall => ?_
        obtain ⟨_, -, rfl⟩ := List.mem_map.mp hcall
        exact fun heq => hw (of_decide_eq_true heq ▸ hticket)
    unfold Board.callsOf
    refine ⟨fun hold => ?_, fun w' hw => ?_⟩
    · rw [hcalls, List.filter_append, hold, hfilter, if_pos rfl]
      unfold Worker.calls Worker.settle
      rw [List.flatMap_append, List.flatMap_singleton]
    · rw [hcalls, List.filter_append, hfilter, if_neg hw, List.append_nil]
  | _ => exact ⟨fun hold => hold, fun _ _ => rfl⟩

theorem Inv.host {pool : Pool k σ} (h : Inv sems pool) {s' : σ}
    (hkeeps : ∀ p, sems.wait pool.semaphores p ≠ .pending → sems.wait s' p ≠ .pending) :
    Inv sems (pool.host s') where
  workers := h.workers
  ids := h.ids
  calls := h.calls
  settles w entry hentry q hq p hcovers := hkeeps p (h.settles w entry hentry q hq p hcovers)

/-- The units a worker received were assigned to it. -/
theorem Inv.worker_of_received {pool : Pool k σ} (h : Inv sems pool) {w : Fin (k + 1)}
    {ticket : Ticket k} (hmem : ticket ∈ (pool.workers w).received) : ticket.worker = w := by
  have hassigned := (h.workers w).order.subset (List.mem_append_left _ hmem)
  exact of_decide_eq_true (List.mem_filter.mp hassigned).2

theorem Inv.worker_of_holding {pool : Pool k σ} (h : Inv sems pool) {w : Fin (k + 1)}
    {ticket : Ticket k} (hmem : ticket ∈ (pool.workers w).phase.holding) : ticket.worker = w := by
  apply h.worker_of_received
  rw [← (h.workers w).handled]
  exact List.mem_append_right _ hmem

theorem Inv.moved (hlaws : sems.Lawful) {pool : Pool k σ} (h : Inv sems pool) (w : Fin (k + 1))
    (step : WorkerStep) : Inv sems (pool.step sems (.worker w step)) := by
  have hmoves : (pool.workers w).Moves sems pool.board step
      ((pool.workers w).step sems pool.board step).1
      ((pool.workers w).step sems pool.board step).2 := (pool.workers w).step_moves hlaws step
  obtain ⟨hcalls, hothers⟩ := hmoves.calls (w := w) fun _ hmem => h.worker_of_holding hmem
  refine ⟨fun w' => ?_, h.ids, fun w' => ?_, fun w' entry hentry q hq p hcovers => ?_⟩
  · show (Function.update pool.workers w _ w').Ok (pool.assigned w')
    by_cases hw : w' = w
    · subst hw
      rw [Function.update_self]
      exact (h.workers w').moves hmoves
    · rw [Function.update_of_ne hw]
      exact h.workers w'
  · show _ = (Function.update pool.workers w _ w').calls
    by_cases hw : w' = w
    · subst hw
      rw [Function.update_self]
      exact hcalls (h.calls w')
    · rw [Function.update_of_ne hw]
      exact (hothers w' hw).trans (h.calls w')
  · replace hentry : entry ∈ (Function.update pool.workers w _ w').settled := hentry
    by_cases hw : w' = w
    · subst hw
      rw [Function.update_self] at hentry
      rcases hmoves.settled_mem hentry with hold | hnew
      · exact hmoves.keeps (h.settles w' entry hold q hq p hcovers)
      · exact hnew q hq p hcovers
    · rw [Function.update_of_ne hw] at hentry
      exact hmoves.keeps (h.settles w' entry hentry q hq p hcovers)

theorem Worker.Ok.send {assigned : List (Ticket k)} (h : worker.Ok assigned)
    (halive : worker.phase.alive = true) (ticket : Ticket k) :
    ({ worker with queue := worker.queue ++ [ticket] } : Worker k).Ok (assigned ++ [ticket]) := by
  have hwhole : worker.received ++ (worker.queue ++ [ticket]) = assigned ++ [ticket] := by
    rw [← List.append_assoc, h.whole]
    intro lost hlost
    rw [hlost] at halive
    cases halive
  refine ⟨hwhole ▸ List.prefix_refl _, fun _ => hwhole, h.handled, h.called, h.reports, ?_, h.waits⟩
  intro hreturned
  replace hreturned : worker.phase = .returned := hreturned
  rw [hreturned] at halive
  cases halive

theorem assigned_append (pool : Pool k σ) (ticket : Ticket k) (w : Fin (k + 1)) :
    (pool.accepted ++ [ticket]).filter (·.worker = w) =
      pool.assigned w ++ if ticket.worker = w then [ticket] else [] := by
  rw [List.filter_append, Pool.assigned]
  congr 1
  split_ifs with hw <;> simp [hw]

theorem Inv.enqueueOn {pool : Pool k σ} (h : Inv sems pool) (context : Nat) (unit : QueuedUnit) :
    Inv sems (pool.enqueueOn context unit) := by
  unfold Pool.enqueueOn
  dsimp only
  split_ifs with haccepts
  · rw [Pool.accepts, Bool.and_eq_true] at haccepts
    have hsame (w : Fin (k + 1)) (queue : List (Ticket k)) {α : Type} (part : Worker k → α)
        (hpart : ∀ worker queue, part { worker with queue } = part worker) :
        part (Function.update pool.workers (workerIndex context)
          { pool.workers (workerIndex context) with queue } w) = part (pool.workers w) := by
      by_cases hw : w = workerIndex context
      · subst hw
        rw [Function.update_self]
        exact hpart _ _
      · rw [Function.update_of_ne hw]
    refine ⟨fun w => ?_, ?_, fun w => ?_, fun w entry hentry => ?_⟩
    · rw [Pool.assigned, assigned_append]
      dsimp only
      by_cases hw : w = workerIndex context
      · subst hw
        rw [Function.update_self, if_pos rfl]
        exact (h.workers _).send haccepts.2 _
      · rw [Function.update_of_ne hw, if_neg (Ne.symm hw), List.append_nil]
        exact h.workers w
    · rw [List.map_append, h.ids, List.length_append]
      exact List.range_succ.symm
    · exact (h.calls w).trans (hsame w _ Worker.calls fun _ _ => rfl).symm
    · apply h.settles w entry
      dsimp only at hentry
      rwa [hsame w _ Worker.settled fun _ _ => rfl] at hentry
  · exact h

theorem Inv.close {pool : Pool k σ} (h : Inv sems pool) (w : Fin (k + 1)) :
    Inv sems (pool.close w) := by
  refine ⟨fun w' => ?_, h.ids, fun w' => ?_, fun w' entry hentry => ?_⟩
  · show (Function.update pool.workers w _ w').Ok (pool.assigned w')
    by_cases hw : w' = w
    · subst hw
      rw [Function.update_self]
      obtain ⟨horder, hwhole, hhandled, hcalled, hreports, hdrained, hwaits⟩ := h.workers w'
      exact ⟨horder, hwhole, hhandled, hcalled, hreports, hdrained, hwaits⟩
    · rw [Function.update_of_ne hw]
      exact h.workers w'
  · show _ = (Function.update pool.workers w _ w').calls
    by_cases hw : w' = w
    · subst hw
      rw [Function.update_self]
      exact h.calls w'
    · rw [Function.update_of_ne hw]
      exact h.calls w'
  · apply h.settles w' entry
    replace hentry : entry ∈ (Function.update pool.workers w _ w').settled := hentry
    by_cases hw : w' = w
    · subst hw
      rwa [Function.update_self] at hentry
    · rwa [Function.update_of_ne hw] at hentry

/-- **Every step keeps the invariant.** -/
theorem Inv.step (hlaws : sems.Lawful) {pool : Pool k σ} (h : Inv sems pool) (action : Action k) :
    Inv sems (pool.step sems action) := by
  cases action with
  | enqueue context unit => exact h.enqueueOn context unit
  | close w => exact h.close w
  | hostSignal points => exact h.host fun _ hp => hlaws.signal_keeps hp
  | hostFail points status => exact h.host fun _ hp => hlaws.fail_keeps hp
  | worker w step => exact h.moved hlaws w step

/-- The worker does not block: it is at a unit, at an open end of its channel, or at a point that is
settled. -/
def Worker.Ready (sems : Semaphores σ) (worker : Worker k) (s : σ) : Prop :=
  match worker.phase with
  | .receiving => worker.queue ≠ [] ∨ worker.sender = false
  | .waiting _ [] => True
  | .waiting _ (point :: _) => sems.wait s point ≠ .pending
  | .working _ => True
  | .returned | .panicked _ => False

/-- The worker sits in `wait_all` at a point that is not settled. -/
def Worker.Blocked (sems : Semaphores σ) (worker : Worker k) (s : σ) (point : Point) : Prop :=
  ∃ ticket rest, worker.phase = .waiting ticket (point :: rest) ∧ sems.wait s point = .pending

/-- The steps a worker has left. -/
def Phase.todo : Phase k → Nat
  | .receiving => 1
  | .waiting _ rest => rest.length + 3
  | .working _ => 2
  | .returned | .panicked _ => 0

def Worker.todo (worker : Worker k) : Nat :=
  worker.phase.todo + (worker.queue.map fun ticket => ticket.unit.wait.length + 3).sum

/-- The work closures of the step, if any, return. -/
def WorkerStep.Returns (step : WorkerStep) : Prop := step ≠ .finish .panicked

theorem Worker.settle_todo {ticket : Ticket k} {outcome : Outcome} (h : 1 < worker.phase.todo) :
    (worker.settle ticket outcome).todo < worker.todo := Nat.add_lt_add_right h _

/-- A worker that does not block has a step that brings it nearer its end. -/
theorem Worker.Ready.step (h : worker.Ready sems board.semaphores) :
    ∃ step : WorkerStep, step.Returns ∧ (worker.step sems board step).1.todo < worker.todo := by
  unfold Worker.Ready at h
  split at h
  next hphase =>
    refine ⟨.receive, nofun, ?_⟩
    show worker.receive.todo < worker.todo
    unfold Worker.receive Worker.todo
    rw [hphase]
    cases hqueue : worker.queue with
    | nil =>
      rcases h with hne | hsender
      · exact absurd hqueue hne
      · simp [hsender, Phase.todo]
    | cons ticket queue =>
      simp only [Phase.todo, List.map_cons, List.sum_cons]
      omega
  next ticket hphase =>
    refine ⟨.wait, nofun, ?_⟩
    show (worker.wait sems board).1.todo < worker.todo
    unfold Worker.wait Worker.todo
    rw [hphase]
    exact Nat.add_lt_add_right (Nat.lt_succ_self 2) _
  next ticket point rest hphase =>
    have htodo : worker.phase.todo = rest.length + 4 := by rw [hphase]; rfl
    refine ⟨.wait, nofun, ?_⟩
    show (worker.wait sems board).1.todo < worker.todo
    unfold Worker.wait
    rw [hphase]
    dsimp only
    split
    next hpending => exact absurd hpending h
    next =>
      refine Nat.add_lt_add_right ?_ _
      rw [htodo]
      exact Nat.lt_succ_self _
    next status hfailed => exact settle_todo (by omega)
  next ticket hphase =>
    have htodo : worker.phase.todo = 2 := by rw [hphase]; rfl
    refine ⟨.finish (.status 0), nofun, ?_⟩
    show (worker.finish sems board (.status 0)).1.todo < worker.todo
    unfold Worker.finish
    rw [hphase]
    exact settle_todo (by omega)
  next => exact absurd h not_false
  next => exact absurd h not_false

variable (sems) in
/-- A worker that has not panicked and has a unit left is ready or waits for a point. -/
theorem Worker.Ok.attended {assigned : List (Ticket k)} (h : worker.Ok assigned)
    (hintact : ∀ lost, worker.phase ≠ .panicked lost) {ticket : Ticket k} (hmem : ticket ∈ assigned)
    (hunsettled : ticket ∉ worker.settled.map Prod.fst) (s : σ) :
    worker.Ready sems s ∨ ∃ point, worker.Blocked sems s point := by
  rw [← h.whole hintact, ← h.handled, List.append_assoc] at hmem
  replace hmem := (List.mem_append.mp hmem).resolve_left hunsettled
  unfold Worker.Ready
  cases hphase : worker.phase with
  | receiving =>
    rw [hphase] at hmem
    exact .inl (.inl (List.ne_nil_of_mem hmem))
  | waiting current rest =>
    cases rest with
    | nil => exact .inl trivial
    | cons point rest =>
      by_cases hpending : sems.wait s point = .pending
      · exact .inr ⟨point, current, rest, hphase, hpending⟩
      · exact .inl hpending
  | working current => exact .inl trivial
  | returned =>
    rw [hphase, h.drained hphase] at hmem
    exact absurd hmem List.not_mem_nil
  | panicked lost => exact absurd hphase (hintact lost)

/-- The unit has been signalled or failed. -/
def Pool.Finished (pool : Pool k σ) (ticket : Ticket k) : Prop :=
  ticket ∈ (pool.workers ticket.worker).settled.map Prod.fst

/-- No work panics. -/
def Returning : Action k → Prop
  | .worker _ step => step.Returns
  | _ => True

/-- The action makes the work of a unit panic. -/
def Panics (pool : Pool k σ) (action : Action k) : Prop :=
  ∃ w ticket, action = .worker w (.finish .panicked) ∧ (pool.workers w).phase = .working ticket

/-- No worker has panicked. -/
def Pool.Intact (pool : Pool k σ) : Prop := ∀ w lost, (pool.workers w).phase ≠ .panicked lost

theorem Worker.Moves.intact {worker' : Worker k} {board' : Board k σ}
    (h : worker.Moves sems board turn worker' board')
    (hturn : ∀ ticket, worker.phase = .working ticket → turn.Returns)
    (hintact : ∀ lost, worker.phase ≠ .panicked lost) : ∀ lost, worker'.phase ≠ .panicked lost := by
  cases h with
  | idle => exact hintact
  | panic ticket hphase hstep => exact absurd hstep (hturn ticket hphase)
  | _ => nofun

theorem Pool.Intact.new {start : σ} : (Pool.new (k := k) start).Intact := fun _ => nofun

theorem Returning.not_panics {pool : Pool k σ} {action : Action k} (h : Returning action) :
    ¬ Panics pool action := by
  rintro ⟨w, ticket, rfl, -⟩
  exact h rfl

theorem Pool.Intact.update {pool : Pool k σ} (h : pool.Intact) {w : Fin (k + 1)}
    {worker' : Worker k} (hworker : ∀ lost, worker'.phase ≠ .panicked lost) :
    ∀ w' lost, (Function.update pool.workers w worker' w').phase ≠ .panicked lost :=
  (Function.forall_update_iff pool.workers fun _ worker => ∀ lost, worker.phase ≠ .panicked lost).mpr
    ⟨hworker, fun w' _ => h w'⟩

theorem Pool.Intact.step (hlaws : sems.Lawful) {pool : Pool k σ} (h : pool.Intact)
    {action : Action k} (haction : ¬ Panics pool action) : (pool.step sems action).Intact := by
  cases action with
  | enqueue context unit =>
    show (pool.enqueueOn context unit).Intact
    unfold Pool.enqueueOn
    dsimp only
    split_ifs
    · exact h.update (h _)
    · exact h
  | close w => exact h.update (h w)
  | hostSignal points => exact h
  | hostFail points status => exact h
  | worker w turn =>
    refine h.update (((pool.workers w).step_moves hlaws turn).intact ?_ (h w))
    rintro ticket hphase rfl
    exact haction ⟨w, ticket, rfl, hphase⟩

theorem Inv.accepted_assigned {pool : Pool k σ} {ticket : Ticket k} (hmem : ticket ∈ pool.accepted) :
    ticket ∈ pool.assigned ticket.worker :=
  List.mem_filter.mpr ⟨hmem, decide_eq_true rfl⟩

end IreeRocket.WorkerPool
