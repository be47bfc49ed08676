import IreeRocket.Lib.Custody
import Mathlib.Algebra.Order.Floor.Div

/-!
# The scratch pool

Driver-private GEM buffers: a `ScratchBuffer` dropped by its owner goes to a free list keyed by file
and size class, or is closed when the pool is off or full. A buffer is named by the number of its
allocation, which is never used again, so a buffer handed out twice is one number held twice.
-/

namespace IreeRocket.ScratchPool

/-- A pooled scratch GEM buffer; `classBytes` is its size. -/
structure ScratchBuffer where
  bo : Nat
  fd : Nat
  classBytes : Nat
  deriving DecidableEq

/-- `ROCKET_SCRATCH_POOL` and the bytes the free lists may hold. -/
structure Policy where
  enabled : Bool
  budgetBytes : Nat

/-- The free lists, the last buffer in first, with every buffer closed so far and the number of the
next allocation. -/
structure Pool where
  free : List ScratchBuffer
  bytes : Nat
  closed : List ScratchBuffer
  nextBo : Nat

namespace Pool

def empty : Pool := ⟨[], 0, [], 0⟩

/-- The class a request rounds up to. -/
def classOf (bytes : Nat) : Nat :=
  let step :=
    if bytes < 64 * 1024 then 4 * 1024
    else if bytes < 256 * 1024 then 64 * 1024
    else if bytes < 4096 * 1024 then 256 * 1024
    else 1024 * 1024
  (max bytes 1 ⌈/⌉ step) * step

/-- `ScratchBuffer::new`. -/
def take (policy : Policy) (pool : Pool) (fd bytes : Nat) : ScratchBuffer × Pool :=
  let size := classOf bytes
  match policy.enabled, pool.free.find? (fun b => b.fd = fd ∧ b.classBytes = size) with
  | true, some b => (b, { pool with free := pool.free.erase b, bytes := pool.bytes - size })
  | _, _ => (⟨pool.nextBo, fd, size⟩, { pool with nextBo := pool.nextBo + 1 })

/-- `ScratchBuffer::drop`. -/
def give (policy : Policy) (pool : Pool) (b : ScratchBuffer) : Pool :=
  if policy.enabled ∧ pool.bytes + b.classBytes ≤ policy.budgetBytes then
    { pool with free := b :: pool.free, bytes := pool.bytes + b.classBytes }
  else { pool with closed := b :: pool.closed }

/-- The drop of a vector of buffers. -/
def giveAll (policy : Policy) (pool : Pool) (bufs : List ScratchBuffer) : Pool :=
  bufs.foldl (give policy) pool

/-- `scratch_pool::clear`. -/
def clear (pool : Pool) : Pool :=
  { pool with free := [], bytes := 0, closed := pool.free ++ pool.closed }

/-- The buffers in the pool and those closed. -/
def released (pool : Pool) : List Nat := (pool.free ++ pool.closed).map (·.bo)

/-! ### What the operations do -/

variable {policy : Policy} {pool pool' : Pool} {b : ScratchBuffer} {bufs : List ScratchBuffer}
  {fd bytes : Nat}

/-- A buffer comes from the pool, or it is a new allocation. -/
theorem take_spec (h : take policy pool fd bytes = (b, pool')) :
    pool.released.Perm (b.bo :: pool'.released) ∧ pool'.nextBo = pool.nextBo ∨
    pool'.released = pool.released ∧ b.bo = pool.nextBo ∧ pool'.nextBo = pool.nextBo + 1 := by
  simp only [take] at h
  split at h
  · rename_i found _ hfound
    obtain ⟨rfl, rfl⟩ := Prod.mk.inj h
    refine .inl ⟨?_, rfl⟩
    have hperm := (List.perm_cons_erase (List.mem_of_find?_eq_some hfound)).append_right pool.closed
    exact hperm.map (·.bo)
  · obtain ⟨rfl, rfl⟩ := Prod.mk.inj h
    exact .inr ⟨rfl, rfl, rfl⟩

theorem give_released : (pool.give policy b).released.Perm (b.bo :: pool.released) := by
  simp only [give]
  split
  · rfl
  · simp only [released, List.map_append, List.map_cons]
    exact List.perm_middle

@[simp] theorem give_nextBo : (pool.give policy b).nextBo = pool.nextBo := by
  simp only [give]
  split <;> rfl

theorem giveAll_released :
    (pool.giveAll policy bufs).released.Perm (bufs.map (·.bo) ++ pool.released) := by
  induction bufs generalizing pool with
  | nil => rfl
  | cons b bufs ih => exact ih.trans ((give_released.append_left _).trans List.perm_middle)

@[simp] theorem giveAll_nextBo : (pool.giveAll policy bufs).nextBo = pool.nextBo := by
  induction bufs generalizing pool with
  | nil => rfl
  | cons b bufs ih => exact ih.trans give_nextBo

end Pool

end IreeRocket.ScratchPool
