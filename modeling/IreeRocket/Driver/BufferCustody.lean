import IreeRocket.Driver.QueueExecute

/-!
# Buffers of tasks in flight

The invariant behind `buffers_unrecycled`. Every scratch buffer lies in one place: released, with a
command buffer, or with an execution (`State.place`). A task names its own register-command buffer,
which its execution holds, and what its command buffer keeps; an execution that has not returned holds
a reference to its command buffer; and only an execution that is submitting or waiting has tasks in
flight.
-/

namespace IreeRocket.Queue

open ScratchPool Custody

/-! ### The invariant -/

/-- Where a scratch buffer can lie. -/
inductive Place
  | released
  | commandBuffer (i : Nat)
  | execution (r : Nat)
  deriving DecidableEq

def State.place (s : State) : Place → List Nat
  | .released => s.pool.released
  | .commandBuffer i => (s.commandBuffers i).scratch.map (·.bo)
  | .execution r => (s.executions r).cmdBufs.map (·.bo)

/-- The buffers lie in one place each and have been allocated. -/
structure InCustody (place : Place → List Nat) (nextBo : Nat) : Prop where
  exclusive : Exclusive place
  allocated : ∀ p, ∀ bo ∈ place p, bo < nextBo

/-- Neither not begun nor returned. -/
def Phase.Active : Phase → Prop
  | .idle | .done => False
  | _ => True

/-- Tasks may be in flight. -/
def Phase.Busy : Phase → Prop
  | .submitting _ | .waiting _ => True
  | _ => False

def Phase.IsWaiting : Phase → Prop
  | .waiting _ => True
  | _ => False

/-- The tasks that are to be submitted. -/
def Phase.tasks : Phase → List Task
  | .flushing tasks | .submitting tasks => tasks
  | _ => []

/-- The recorded dispatches name what the command buffer keeps. -/
def CommandBuffer.Closed (cb : CommandBuffer) : Prop :=
  ∀ tasks ∈ cb.ops, ∀ task ∈ tasks, ∀ bo ∈ task.target.names, cb.Keeps bo

/-- The task's own program lies in a buffer of the execution, and the rest with the command buffer. -/
def Task.Backed (task : Task) (cb : CommandBuffer) (e : Execution) : Prop :=
  task.cmdBuf ∈ e.cmdBufs ∧ ∀ bo ∈ task.target.names, cb.Keeps bo

/-- Execution `r` agrees with its command buffer. -/
structure Execution.Sound (e : Execution) (r : Nat) (cb : CommandBuffer) : Prop where
  retained : e.phase.Active → .execution r ∈ cb.holders
  backed : ∀ task ∈ e.inFlight ++ e.phase.tasks, task.Backed cb e
  quiet : ¬ e.phase.Busy → e.inFlight = []
  awaited : e.phase.IsWaiting → e.inFlight ≠ []

structure Inv (s : State) : Prop where
  custody : InCustody s.place s.pool.nextBo
  closed : ∀ i, (s.commandBuffers i).Closed
  sound : ∀ r, (s.executions r).Sound r (s.commandBuffers (s.executions r).commandBuffer)

theorem Phase.Busy.active {phase : Phase} (h : phase.Busy) : phase.Active := by
  cases phase <;> trivial

theorem Phase.IsWaiting.busy {phase : Phase} (h : phase.IsWaiting) : phase.Busy := by
  cases phase <;> trivial

theorem inv_init : Inv State.init where
  custody := by
    have hplace : State.init.place = fun _ => [] := by
      funext p
      cases p <;> rfl
    rw [hplace]
    exact ⟨exclusive_empty, fun _ _ h => absurd h List.not_mem_nil⟩
  closed _ _ h := absurd h List.not_mem_nil
  sound _ := ⟨fun h => absurd h id, fun _ h => absurd h List.not_mem_nil, fun _ => rfl,
    fun h => absurd h id⟩

/-- **Custody is safety.** Under the invariant no buffer of a task in flight has been recycled. -/
theorem Inv.unrecycled {s : State} (h : Inv s) : s.Unrecycled := by
  intro r task htask bo hbo hrecycled
  have hout : ∀ {p bo}, p ≠ .released → bo ∈ s.place p → bo ∉ s.place .released :=
    fun hne hheld => h.custody.exclusive.notMem hne hheld
  have hback := (h.sound r).backed task (List.mem_append_left _ htask)
  rcases List.mem_cons.mp hbo with rfl | hnamed
  · have hheld : task.cmdBuf.bo ∈ s.place (.execution r) := List.mem_map_of_mem hback.1
    exact hout (by simp) hheld hrecycled
  · have hkeeps := hback.2 bo hnamed
    cases bo with
    | scratch bo =>
      have hheld : bo ∈ s.place (.commandBuffer (s.executions r).commandBuffer) := hkeeps
      exact hout (by simp) hheld hrecycled
    | packing bo => exact hrecycled.2 _ hkeeps
    | binding bo => exact hrecycled

/-! ### Custody under the pool's operations -/

section Custody

variable {policy : Policy} {pool pool' : Pool} {b : ScratchBuffer} {bufs : List ScratchBuffer}
  {fd bytes : Nat} {place place' : Place → List Nat} {p : Place}

/-- A buffer taken from the pool by `p`. -/
theorem InCustody.take (h : InCustody place pool.nextBo)
    (htake : pool.take policy fd bytes = (b, pool')) (hpool : place .released = pool.released)
    (hpool' : place' .released = pool'.released) (hne : Place.released ≠ p)
    (hp : (place' p).Perm (b.bo :: place p))
    (hother : ∀ q, q ≠ .released → q ≠ p → place' q = place q) :
    InCustody place' pool'.nextBo := by
  rcases Pool.take_spec htake with ⟨hperm, hnext⟩ | ⟨hkeep, hbo, hnext⟩
  · have hmoves : Moves place place' .released p [b.bo] :=
      ⟨by rw [hpool, hpool']; exact hperm, hp, fun q hq hqp => hother q hq hqp ▸ .refl _⟩
    refine ⟨h.exclusive.moves hne hmoves, fun q bo hmem => ?_⟩
    rw [hnext]
    rcases h.exclusive.mem_moves hne hmoves hmem with ⟨hold, -⟩ | ⟨-, hmoved⟩
    · exact h.allocated q bo hold
    · exact h.allocated .released bo (hmoves.mem_source hmoved)
  · have hrest : ∀ q, q ≠ p → place' q = place q := by
      intro q hqp
      by_cases hq : q = .released
      · rw [hq, hpool, hpool', hkeep]
      · exact hother q hq hqp
    have henters : Enters place place' p b.bo := by
      refine ⟨hp, fun q hqp => hrest q hqp ▸ .refl _, fun q hmem => ?_⟩
      have := h.allocated q b.bo hmem
      omega
    refine ⟨h.exclusive.enters henters, fun q bo hmem => ?_⟩
    by_cases hqp : q = p
    · subst hqp
      rcases List.mem_cons.mp (hp.mem_iff.mp hmem) with heq | hold
      · omega
      · have := h.allocated q bo hold
        omega
    · have := h.allocated q bo (hrest q hqp ▸ hmem)
      omega

/-- The buffers of `p` dropped. -/
theorem InCustody.giveAll (h : InCustody place pool.nextBo) (hpool : place .released = pool.released)
    (hpool' : place' .released = (pool.giveAll policy bufs).released) (hne : p ≠ .released)
    (hp : place p = bufs.map (·.bo)) (hp' : place' p = [])
    (hother : ∀ q, q ≠ .released → q ≠ p → place' q = place q) :
    InCustody place' (pool.giveAll policy bufs).nextBo := by
  have hmoves : Moves place place' p .released (bufs.map (·.bo)) := by
    refine ⟨by rw [hp, hp', List.append_nil], ?_, fun q hqp hq => hother q hq hqp ▸ .refl _⟩
    rw [hpool, hpool']
    exact Pool.giveAll_released
  refine ⟨h.exclusive.moves hne hmoves, fun q bo hmem => ?_⟩
  rw [Pool.giveAll_nextBo]
  rcases h.exclusive.mem_moves hne hmoves hmem with ⟨hold, -⟩ | ⟨-, hmoved⟩
  · exact h.allocated q bo hold
  · exact h.allocated p bo (hmoves.mem_source hmoved)

end Custody

/-! ### The invariant under updates of the state -/

/-- `cb'` keeps what `cb` keeps, for the same executions. -/
structure CommandBuffer.Le (cb cb' : CommandBuffer) : Prop where
  keeps : ∀ bo, cb.Keeps bo → cb'.Keeps bo
  holds : ∀ r, .execution r ∈ cb.holders → .execution r ∈ cb'.holders

theorem Execution.Sound.mono {e : Execution} {r : Nat} {cb cb' : CommandBuffer} (h : e.Sound r cb)
    (hle : cb.Le cb') : e.Sound r cb' where
  retained hactive := hle.holds r (h.retained hactive)
  backed task htask :=
    ⟨(h.backed task htask).1, fun bo hbo => hle.keeps bo ((h.backed task htask).2 bo hbo)⟩
  quiet := h.quiet
  awaited := h.awaited

/-- An execution that is not active asks nothing of its command buffer. -/
theorem Execution.Sound.of_inactive {e : Execution} {r : Nat} {cb cb' : CommandBuffer}
    (h : e.Sound r cb) (hinactive : ¬ e.phase.Active) : e.Sound r cb' where
  retained hactive := absurd hactive hinactive
  backed task htask := by
    rw [h.quiet fun hbusy => hinactive hbusy.active] at htask
    cases hphase : e.phase <;> simp_all [Phase.Active, Phase.tasks]
  quiet := h.quiet
  awaited := h.awaited

theorem CommandBuffer.keeps_congr {cb cb' : CommandBuffer} (hscratch : cb'.scratch = cb.scratch)
    (hpackings : cb'.packings = cb.packings) (bo : Bo) : cb'.Keeps bo ↔ cb.Keeps bo := by
  cases bo <;> simp [CommandBuffer.Keeps, hscratch, hpackings]

section Updates

variable {policy : Policy} {s : State} {r i : Nat} {e : Execution} {cb : CommandBuffer}

theorem Inv.setExecution (h : Inv s) (hbufs : e.cmdBufs = (s.executions r).cmdBufs)
    (hsound : e.Sound r (s.commandBuffers e.commandBuffer)) : Inv (s.setExecution r e) where
  custody := by
    have hplace : (s.setExecution r e).place = s.place := by
      funext p
      cases p with
      | execution r' =>
        by_cases hr : r' = r
        · subst hr
          simp [State.place, State.setExecution, hbufs]
        · simp [State.place, State.setExecution, hr]
      | _ => rfl
    rw [hplace]
    exact h.custody
  closed := h.closed
  sound r' := by
    by_cases hr : r' = r
    · subst hr
      simpa [State.setExecution] using hsound
    · simpa [State.setExecution, hr] using h.sound r'

theorem Inv.setPhase {phase : Phase} (h : Inv s) (hactive : phase.Active → (s.executions r).phase.Active)
    (htasks : ∀ task ∈ phase.tasks, task.Backed
      (s.commandBuffers (s.executions r).commandBuffer) (s.executions r))
    (hquiet : ¬ phase.Busy → (s.executions r).inFlight = [])
    (hawaited : phase.IsWaiting → (s.executions r).inFlight ≠ []) : Inv (s.setPhase r phase) := by
  have hold := h.sound r
  refine h.setExecution rfl
    ⟨fun ha => hold.retained (hactive ha), fun task htask => ?_, hquiet, hawaited⟩
  rcases List.mem_append.mp htask with hflight | hphase
  · exact hold.backed task (List.mem_append_left _ hflight)
  · exact htasks task hphase

theorem Inv.setCommandBuffer (h : Inv s) (hscratch : cb.scratch = (s.commandBuffers i).scratch)
    (hle : (s.commandBuffers i).Le cb) (hclosed : cb.Closed) : Inv (s.setCommandBuffer i cb) where
  custody := by
    have hplace : (s.setCommandBuffer i cb).place = s.place := by
      funext p
      cases p with
      | commandBuffer i' =>
        by_cases hi : i' = i
        · subst hi
          simp [State.place, State.setCommandBuffer, hscratch]
        · simp [State.place, State.setCommandBuffer, hi]
      | _ => rfl
    rw [hplace]
    exact h.custody
  closed i' := by
    by_cases hi : i' = i
    · subst hi
      simpa [State.setCommandBuffer] using hclosed
    · simpa [State.setCommandBuffer, hi] using h.closed i'
  sound r := by
    by_cases hi : (s.executions r).commandBuffer = i
    · have hsound := Execution.Sound.mono (h.sound r) (show CommandBuffer.Le _ cb by rw [hi]; exact hle)
      simpa [State.setCommandBuffer, hi] using hsound
    · simpa [State.setCommandBuffer, hi] using h.sound r

/-- What the invariant reads of the packings' holders is only what the command buffers hold. -/
theorem Inv.setPackings (h : Inv s) (cached : List Nat) (n : Nat) :
    Inv { s with cached := cached, nextPacking := n } where
  custody := by
    have hplace : State.place { s with cached := cached, nextPacking := n } = s.place := by
      funext p
      cases p <;> rfl
    rw [hplace]
    exact h.custody
  closed := h.closed
  sound := h.sound

theorem Inv.clear (h : Inv s) : Inv { s with pool := s.pool.clear } where
  custody := by
    have hplace : State.place { s with pool := s.pool.clear } = s.place := by
      funext p
      cases p <;> rfl
    rw [hplace]
    exact h.custody
  closed := h.closed
  sound := h.sound

/-- A buffer taken from the pool for a command buffer. -/
theorem Inv.recordScratch (h : Inv s) (request : Nat × Nat) :
    Inv (s.recordScratch policy i request) := by
  have hle : (s.commandBuffers i).Le { s.commandBuffers i with scratch := (s.commandBuffers i).scratch ++
      [(s.pool.take policy request.1 request.2).1] } := by
    refine ⟨fun bo hbo => ?_, fun r hr => hr⟩
    cases bo <;> simp_all [CommandBuffer.Keeps]
  refine ⟨?_, fun i' => ?_, fun r => ?_⟩
  · refine h.custody.take (p := .commandBuffer i) (b := (s.pool.take policy request.1 request.2).1) rfl
      rfl rfl (by simp) ?_ fun q hq hqi => ?_
    · simp [State.place, State.recordScratch, State.setCommandBuffer]
    · cases q with
      | commandBuffer i' =>
        have hi : i' ≠ i := fun heq => hqi (heq ▸ rfl)
        simp [State.place, State.recordScratch, State.setCommandBuffer, hi]
      | released => exact absurd rfl hq
      | execution _ => rfl
  · by_cases hi : i' = i
    · subst hi
      intro tasks htasks task htask bo hbo
      simp only [State.recordScratch, State.setCommandBuffer, Function.update_self] at htasks ⊢
      exact hle.keeps bo (h.closed i' tasks htasks task htask bo hbo)
    · simpa [State.recordScratch, State.setCommandBuffer, hi] using h.closed i'
  · by_cases hi : (s.executions r).commandBuffer = i
    · have hsound := (h.sound r).mono (hi ▸ hle)
      simpa [State.recordScratch, State.setCommandBuffer, hi] using hsound
    · simpa [State.recordScratch, State.setCommandBuffer, hi] using h.sound r

/-- A buffer taken from the pool for an execution. -/
theorem Inv.allocateCmdBuf (h : Inv s) (task : RecordedTask) :
    Inv (s.allocateCmdBuf policy r task) := by
  refine ⟨?_, h.closed, fun r' => ?_⟩
  · refine h.custody.take (p := .execution r) (b := (s.pool.take policy task.target.fd
      ((task.regcmd.length * 8 + 4095) / 4096 * 4096)).1) rfl rfl rfl (by simp) ?_ fun q hq hqr => ?_
    · simp [State.place, State.allocateCmdBuf, State.setExecution]
    · cases q with
      | execution r' =>
        have hr : r' ≠ r := fun heq => hqr (heq ▸ rfl)
        simp [State.place, State.allocateCmdBuf, State.setExecution, hr]
      | released => exact absurd rfl hq
      | commandBuffer _ => rfl
  · by_cases hr : r' = r
    · subst hr
      have hold := h.sound r'
      simp only [State.allocateCmdBuf, State.setExecution, Function.update_self]
      exact ⟨hold.retained, fun t ht => ⟨List.mem_append_left _ (hold.backed t ht).1,
        (hold.backed t ht).2⟩, hold.quiet, hold.awaited⟩
    · simpa [State.allocateCmdBuf, State.setExecution, hr] using h.sound r'

/-- The execution's register-command buffers dropped, with nothing in flight and nothing to submit. -/
theorem Inv.drop {phase : Phase} (h : Inv s) (hflight : (s.executions r).inFlight = [])
    (htasks : phase.tasks = []) (hbusy : ¬ phase.Busy)
    (hactive : phase.Active → (s.executions r).phase.Active) :
    Inv ((s.dropCmdBufs policy r).setPhase r phase) := by
  refine ⟨?_, h.closed, fun r' => ?_⟩
  · refine h.custody.giveAll (p := .execution r) rfl rfl (by simp) rfl ?_ fun q hq hqr => ?_
    · simp [State.place, State.setPhase, State.dropCmdBufs, State.setExecution]
    · cases q with
      | execution r' =>
        have hr : r' ≠ r := fun heq => hqr (heq ▸ rfl)
        simp [State.place, State.setPhase, State.dropCmdBufs, State.setExecution, hr]
      | released => exact absurd rfl hq
      | commandBuffer _ => rfl
  · by_cases hr : r' = r
    · subst hr
      simp only [State.setPhase, State.dropCmdBufs, State.setExecution, Function.update_self]
      refine ⟨fun ha => (h.sound r').retained (hactive ha), fun task htask => ?_, fun _ => hflight,
        fun hw => absurd hw.busy hbusy⟩
      simp [hflight, htasks] at htask
    · simpa [State.setPhase, State.dropCmdBufs, State.setExecution, hr] using h.sound r'

/-- A reference dropped by the application, or by an execution that is not active. -/
theorem Inv.unref {holder : Holder} (h : Inv s)
    (hholder : ∀ r, holder = .execution r → ¬ (s.executions r).phase.Active) :
    Inv (s.unref policy i holder) := by
  have hstays : ∀ r, (s.executions r).phase.Active → (s.executions r).commandBuffer = i →
      .execution r ∈ (s.commandBuffers i).holders.erase holder := by
    intro r hactive hi
    have hmem := (h.sound r).retained hactive
    rw [hi] at hmem
    exact (List.mem_erase_of_ne fun heq => hholder r heq.symm hactive).mpr hmem
  simp only [State.unref]
  split
  · rename_i hempty
    refine ⟨?_, fun i' => ?_, fun r => ?_⟩
    · refine h.custody.giveAll (p := .commandBuffer i) rfl rfl (by simp) rfl ?_ fun q hq hqi => ?_
      · simp [State.place, State.setCommandBuffer, CommandBuffer.empty]
      · cases q with
        | commandBuffer i' =>
          have hi : i' ≠ i := fun heq => hqi (heq ▸ rfl)
          simp [State.place, State.setCommandBuffer, hi]
        | released => exact absurd rfl hq
        | execution _ => rfl
    · by_cases hi : i' = i
      · subst hi
        simp [State.setCommandBuffer, CommandBuffer.empty, CommandBuffer.Closed]
      · simpa [State.setCommandBuffer, hi] using h.closed i'
    · by_cases hi : (s.executions r).commandBuffer = i
      · have hinactive : ¬ (s.executions r).phase.Active := by
          intro hactive
          have hmem := hstays r hactive hi
          rw [hempty] at hmem
          exact List.not_mem_nil hmem
        exact (h.sound r).of_inactive hinactive
      · simpa [State.setCommandBuffer, hi] using h.sound r
  · refine ⟨?_, fun i' => ?_, fun r => ?_⟩
    · have hplace : (s.setCommandBuffer i { s.commandBuffers i with
          holders := (s.commandBuffers i).holders.erase holder }).place = s.place := by
        funext p
        cases p with
        | commandBuffer i' =>
          by_cases hi : i' = i
          · subst hi
            simp [State.place, State.setCommandBuffer]
          · simp [State.place, State.setCommandBuffer, hi]
        | _ => rfl
      rw [hplace]
      exact h.custody
    · by_cases hi : i' = i
      · subst hi
        intro tasks htasks task htask bo hbo
        simp only [State.setCommandBuffer, Function.update_self] at htasks ⊢
        exact (CommandBuffer.keeps_congr rfl rfl bo).mpr (h.closed i' tasks htasks task htask bo hbo)
      · simpa [State.setCommandBuffer, hi] using h.closed i'
    · by_cases hi : (s.executions r).commandBuffer = i
      · have hold := h.sound r
        simp only [State.setCommandBuffer, hi, Function.update_self]
        rw [hi] at hold
        exact ⟨fun hactive => hstays r hactive hi, fun task htask => ⟨(hold.backed task htask).1,
          fun bo hbo => (CommandBuffer.keeps_congr rfl rfl bo).mpr ((hold.backed task htask).2 bo hbo)⟩,
          hold.quiet, hold.awaited⟩
      · simpa [State.setCommandBuffer, hi] using h.sound r

end Updates

/-! ### One step -/

section Steps

variable {policy : Policy} {s : State} {r i : Nat}

/-- The scratch of a dispatch. -/
theorem Inv.foldl_recordScratch (policy : Policy) (i : Nat) (h : Inv s) (requests : List (Nat × Nat)) :
    Inv (requests.foldl (State.recordScratch policy i) s) := by
  induction requests generalizing s with
  | nil => exact h
  | cons request requests ih => exact ih (h.recordScratch request)

theorem Inv.record (h : Inv s) (requests : List (Nat × Nat)) (tasks : List RecordedTask) :
    Inv (s.record policy i requests tasks) := by
  simp only [State.record]
  split
  · split
    · rename_i hnamed
      have hfold := h.foldl_recordScratch policy i requests
      refine hfold.setCommandBuffer rfl ⟨fun bo hbo => (CommandBuffer.keeps_congr rfl rfl bo).mpr hbo,
        fun _ hr => hr⟩ ?_
      intro recorded hrecorded task htask bo hbo
      refine (CommandBuffer.keeps_congr rfl rfl bo).mpr ?_
      rcases List.mem_append.mp hrecorded with hold | hnew
      · exact hfold.closed i recorded hold task htask bo hbo
      · rw [List.mem_singleton.mp hnew] at htask
        exact hnamed task htask bo hbo
    · exact h
  · exact h

/-- What allocating the register-command buffers leaves as it was. -/
theorem foldl_allocateCmdBuf (policy : Policy) (r : Nat) (tasks : List RecordedTask) (h : Inv s) :
    let s' := tasks.foldl (State.allocateCmdBuf policy r) s
    Inv s' ∧ s'.commandBuffers = s.commandBuffers ∧
      (s'.executions r).commandBuffer = (s.executions r).commandBuffer ∧
      (s'.executions r).inFlight = (s.executions r).inFlight ∧
      (s'.executions r).phase = (s.executions r).phase := by
  induction tasks generalizing s with
  | nil => exact ⟨h, rfl, rfl, rfl, rfl⟩
  | cons task tasks ih =>
    obtain ⟨hinv, hbuffers, hcb, hflight, hphase⟩ := ih (h.allocateCmdBuf task)
    refine ⟨hinv, hbuffers, hcb.trans ?_, hflight.trans ?_, hphase.trans ?_⟩ <;>
      simp [State.allocateCmdBuf, State.setExecution]

theorem Inv.prepare (h : Inv s) {tasks : List RecordedTask} (hphase : (s.executions r).phase = .applying)
    (hnamed : ∀ task ∈ tasks, ∀ bo ∈ task.target.names,
      (s.commandBuffers (s.executions r).commandBuffer).Keeps bo) :
    Inv (s.prepare policy r tasks) := by
  obtain ⟨hinv, hbuffers, hcb, hflight, hphase'⟩ := foldl_allocateCmdBuf policy r tasks h
  have hquiet := (h.sound r).quiet (by rw [hphase]; exact id)
  refine hinv.setPhase (fun _ => ?_) (fun task htask => ?_) (fun _ => hflight.trans hquiet)
    fun hw => absurd hw id
  · rw [hphase', hphase]
    trivial
  · obtain ⟨⟨b, recorded⟩, hpair, rfl⟩ := List.mem_map.mp htask
    obtain ⟨hb, hrecorded⟩ := List.of_mem_zip hpair
    refine ⟨hb, fun bo hbo => ?_⟩
    rw [hbuffers, hcb]
    exact hnamed recorded hrecorded bo hbo

theorem Inv.leave (h : Inv s) (hactive : (s.executions r).phase.Active)
    (hflight : (s.executions r).inFlight = []) : Inv (s.leave policy r) :=
  h.drop hflight rfl id fun _ => hactive

/-- The phase of the wait loop at its next task. -/
def nextPhase : List Task → Phase
  | [] => .completing
  | task :: _ => .waiting task.target.outBoHandles

theorem nextWait_setExecution (e : Execution) : (s.setExecution r e).nextWait r =
    s.setExecution r { e with phase := nextPhase e.inFlight } := by
  cases hflight : e.inFlight <;>
    simp [State.nextWait, State.setPhase, State.setExecution, nextPhase, hflight]

/-- The wait loop goes on with some of the tasks in flight. -/
theorem Inv.nextWait (h : Inv s) (hactive : (s.executions r).phase.Active) {tasks : List Task}
    (htasks : tasks ⊆ (s.executions r).inFlight) :
    Inv ((s.setExecution r { s.executions r with inFlight := tasks }).nextWait r) := by
  have hsound := h.sound r
  rw [nextWait_setExecution]
  refine h.setExecution rfl ⟨fun _ => hsound.retained hactive, fun task htask => ?_, ?_, ?_⟩
  · refine hsound.backed task (List.mem_append_left _ (htasks ?_))
    cases tasks <;> exact (List.mem_append.mp htask).resolve_right List.not_mem_nil
  · cases tasks with
    | nil => exact fun _ => rfl
    | cons task rest => exact fun hbusy => absurd trivial hbusy
  · cases tasks with
    | nil => exact fun hw => absurd hw id
    | cons task rest => exact fun _ => List.cons_ne_nil task rest

/-- The reference goes after the execution has returned. -/
theorem unref_setPhase_comm (i : Nat) (holder : Holder) (phase : Phase) :
    (s.unref policy i holder).setPhase r phase = (s.setPhase r phase).unref policy i holder := by
  by_cases hlast : (s.commandBuffers i).holders.erase holder = [] <;>
    simp [State.unref, State.setPhase, State.setExecution, State.setCommandBuffer, hlast]

/-- **A step of an execution keeps the invariant**, when no call fails behind a submitted task. -/
theorem Inv.advance {ok : Bool} (h : Inv s) (horderly : Orderly s (.advance r ok)) :
    Inv (s.advance policy r ok) := by
  have hsound := h.sound r
  have hleave : (s.executions r).phase.Active → ¬ (s.executions r).phase.Busy →
      Inv (s.leave policy r) := fun hactive hbusy => h.leave hactive (hsound.quiet hbusy)
  simp only [State.advance]
  split
  · exact h
  · -- applying
    rename_i hphase
    have hactive : (s.executions r).phase.Active := by rw [hphase]; trivial
    have hbusy : ¬ (s.executions r).phase.Busy := by rw [hphase]; exact id
    split
    · split
      · exact hleave hactive hbusy
      · rename_i tasks hop
        have hcursor : Inv (s.setExecution r
            { s.executions r with cursor := (s.executions r).cursor + 1 }) :=
          h.setExecution rfl ⟨hsound.retained, hsound.backed, hsound.quiet, hsound.awaited⟩
        have hnext : ∀ e, ((s.setExecution r e).executions r) = e := fun e => by
          simp [State.setExecution]
        split_ifs
        · exact hcursor
        · exact hcursor.leave (by rw [hnext]; exact hactive) (by rw [hnext]; exact hsound.quiet hbusy)
        · refine hcursor.prepare (by rw [hnext]; exact hphase) fun task htask bo hbo => ?_
          rw [hnext]
          exact h.closed _ tasks (List.mem_of_getElem? hop) task htask bo hbo
    · exact hleave hactive hbusy
  · -- flushing
    rename_i tasks hphase
    have hactive : (s.executions r).phase.Active := by rw [hphase]; trivial
    have hbusy : ¬ (s.executions r).phase.Busy := by rw [hphase]; exact id
    split
    · refine h.setPhase (fun _ => hactive) (fun task htask => ?_) (fun hb => absurd trivial hb)
        fun hw => absurd hw id
      refine hsound.backed task (List.mem_append_right _ ?_)
      rw [hphase]
      exact htask
    · exact hleave hactive hbusy
  · rename_i hphase
    have hnext := h.nextWait (r := r) (by rw [hphase]; trivial) (List.Subset.refl _)
    rwa [State.setExecution, Function.update_eq_self] at hnext
  · -- submitting
    rename_i task rest hphase
    split
    · refine h.setExecution rfl ⟨fun _ => hsound.retained (by rw [hphase]; trivial), fun t ht => ?_,
        fun hb => absurd trivial hb, fun hw => absurd hw id⟩
      refine hsound.backed t ?_
      rw [hphase]
      simpa [Phase.tasks] using ht
    · rename_i hok
      rw [Bool.not_eq_true] at hok
      subst hok
      simp only [Orderly, hphase] at horderly
      exact h.leave (by rw [hphase]; trivial) horderly
  · -- waiting, the first task's handles exhausted
    rename_i hphase
    exact h.nextWait (by rw [hphase]; trivial) (List.tail_subset _)
  · rename_i handle handles hphase
    split
    · refine h.setPhase (fun _ => by rw [hphase]; trivial) (fun _ ht => absurd ht List.not_mem_nil)
        (fun hb => absurd trivial hb) fun _ => hsound.awaited (by rw [hphase]; trivial)
    · rename_i hok
      rw [Bool.not_eq_true] at hok
      subst hok
      simp only [Orderly, hphase] at horderly
  · -- completing
    rename_i hphase
    have hactive : (s.executions r).phase.Active := by rw [hphase]; trivial
    have hbusy : ¬ (s.executions r).phase.Busy := by rw [hphase]; exact id
    split
    · exact h.drop (hsound.quiet hbusy) rfl id fun _ => hactive
    · exact hleave hactive hbusy
  · -- leaving
    rename_i hphase
    rw [unref_setPhase_comm]
    have hdone : Inv (s.setPhase r .done) := by
      refine h.setPhase (fun ha => absurd ha id) (fun _ ht => absurd ht List.not_mem_nil)
        (fun _ => hsound.quiet ?_) fun hw => absurd hw id
      rw [hphase]
      exact id
    refine hdone.unref fun r' hr' hactive => ?_
    cases hr'
    simp [State.setPhase, State.setExecution, Phase.Active] at hactive
  · exact h

/-- **A step keeps the invariant.** -/
theorem Inv.step (a : Action) (h : Inv s) (horderly : Orderly s a) : Inv (step policy s a) := by
  cases a with
  | create i =>
    simp only [Queue.step]
    split
    · exact h.setCommandBuffer rfl ⟨fun bo hbo => (CommandBuffer.keeps_congr rfl rfl bo).mpr hbo,
        fun r hr => by simp_all⟩ fun tasks htasks task htask bo hbo =>
          (CommandBuffer.keeps_congr rfl rfl bo).mpr (h.closed i tasks htasks task htask bo hbo)
    · exact h
  | retain i =>
    simp only [Queue.step]
    split
    · exact h.setCommandBuffer rfl ⟨fun bo hbo => (CommandBuffer.keeps_congr rfl rfl bo).mpr hbo,
        fun r hr => List.mem_cons_of_mem _ hr⟩ fun tasks htasks task htask bo hbo =>
          (CommandBuffer.keeps_congr rfl rfl bo).mpr (h.closed i tasks htasks task htask bo hbo)
    · exact h
  | release i =>
    simp only [Queue.step]
    split
    · exact h.unref fun r hr => by cases hr
    · exact h
  | record i requests tasks => exact h.record requests tasks
  | pack i =>
    simp only [Queue.step]
    split
    · have hkeeps : ∀ bo, (s.commandBuffers i).Keeps bo → CommandBuffer.Keeps { s.commandBuffers i with
          packings := s.nextPacking :: (s.commandBuffers i).packings } bo := by
        intro bo hbo
        cases bo <;> simp_all [CommandBuffer.Keeps]
      exact (h.setPackings s.cached (s.nextPacking + 1)).setCommandBuffer rfl ⟨hkeeps, fun _ hr => hr⟩
        fun tasks htasks task htask bo hbo => hkeeps bo (h.closed i tasks htasks task htask bo hbo)
    · exact h
  | publish i bo =>
    simp only [Queue.step]
    split
    · exact h.setPackings _ _
    · exact h
  | hit i bo =>
    simp only [Queue.step]
    split
    · have hkeeps : ∀ bo', (s.commandBuffers i).Keeps bo' → CommandBuffer.Keeps { s.commandBuffers i with
          packings := bo :: (s.commandBuffers i).packings } bo' := by
        intro bo' hbo
        cases bo' <;> simp_all [CommandBuffer.Keeps]
      exact h.setCommandBuffer rfl ⟨hkeeps, fun _ hr => hr⟩
        fun tasks htasks task htask bo' hbo => hkeeps bo' (h.closed i tasks htasks task htask bo' hbo)
    · exact h
  | evict bo => exact h.setPackings _ _
  | clear => exact h.clear
  | execute r i =>
    simp only [Queue.step]
    split
    · rename_i hguard
      have hsound := h.sound r
      have hflight : (s.executions r).inFlight = [] := hsound.quiet (by rw [hguard.2]; exact id)
      have hretained : Inv (s.setCommandBuffer i
          { s.commandBuffers i with holders := .execution r :: (s.commandBuffers i).holders }) :=
        h.setCommandBuffer rfl ⟨fun bo hbo => (CommandBuffer.keeps_congr rfl rfl bo).mpr hbo,
          fun r hr => List.mem_cons_of_mem _ hr⟩ fun tasks htasks task htask bo hbo =>
          (CommandBuffer.keeps_congr rfl rfl bo).mpr (h.closed i tasks htasks task htask bo hbo)
      refine hretained.setExecution rfl ⟨fun _ => ?_, fun task htask => ?_, fun _ => hflight,
        fun hw => absurd hw id⟩
      · simp [State.setCommandBuffer]
      · simp [hflight, Phase.tasks] at htask
    · exact h
  | advance r ok => exact h.advance horderly

/-- The tasks submitted before a failed call stay in flight, and their programs' buffers are dropped. -/
theorem Inv.recycles {r : Nat} {task : Task} (h : Inv s) (htask : task ∈ (s.executions r).inFlight) :
    ¬ (s.leave policy r).Unrecycled := by
  intro hsafe
  have hbacked := (h.sound r).backed task (List.mem_append_left _ htask)
  refine hsafe r task ?_ (.scratch task.cmdBuf.bo) List.mem_cons_self ?_
  · simpa [State.leave, State.setPhase, State.dropCmdBufs, State.setExecution] using htask
  · refine Pool.giveAll_released.mem_iff.mpr (List.mem_append_left _ ?_)
    exact List.mem_map_of_mem hbacked.1

/-- A step that is not orderly recycles a buffer of a task in flight. -/
theorem Inv.step_recycles (policy : Policy) {a : Action} (h : Inv s) (ha : ¬ Orderly s a) :
    ¬ (Queue.step policy s a).Unrecycled := by
  cases a with
  | advance r ok =>
    cases ok with
    | true => exact absurd trivial ha
    | false =>
      simp only [Orderly] at ha
      split at ha
      · rename_i task rest hphase
        obtain ⟨t, ht⟩ := List.exists_mem_of_ne_nil _ ha
        have hleave : Queue.step policy s (.advance r false) = s.leave policy r := by
          simp [Queue.step, State.advance, hphase]
        exact hleave ▸ h.recycles ht
      · rename_i handle handles hphase
        have hne := (h.sound r).awaited (by rw [hphase]; trivial)
        obtain ⟨t, ht⟩ := List.exists_mem_of_ne_nil _ hne
        have hleave : Queue.step policy s (.advance r false) = s.leave policy r := by
          simp [Queue.step, State.advance, hphase]
        exact hleave ▸ h.recycles ht
      · exact absurd trivial ha
  | _ => exact absurd trivial ha

end Steps

/-! ### Runs -/

/-- **Scratch under the hardware.** Throughout a run no buffer that a task submitted and not yet waited
for names is returned to the pool or freed, exactly when every step of the run is orderly: no `PREP_BO`
fails, and no `SUBMIT` fails behind a submitted task of its dispatch. -/
theorem buffers_unrecycled (policy : Policy) (run : List Action) :
    (∀ earlier, earlier <+: run → (Runs.after (step policy) .init earlier).Unrecycled) ↔
      Runs.Guarded (step policy) Orderly .init run := by
  have hinv : ∀ earlier, Runs.Guarded (step policy) Orderly .init earlier →
      Inv (Runs.after (step policy) .init earlier) := fun earlier h =>
    Runs.invariant (fun _ a hs ha => hs.step a ha) inv_init h
  constructor
  · intro hsafe
    induction run using List.reverseRecOn with
    | nil => trivial
    | append_singleton run a ih =>
      have hrun := ih fun earlier h => hsafe earlier (h.trans (List.prefix_append _ _))
      refine Runs.guarded_concat.mpr ⟨hrun, ?_⟩
      by_contra ha
      refine (hinv run hrun).step_recycles policy ha ?_
      have hlast := hsafe (run ++ [a]) (List.prefix_refl _)
      rwa [Runs.after_concat] at hlast
  · intro horderly earlier hearlier
    exact (hinv earlier (horderly.of_isPrefix hearlier)).unrecycled

/-- A dispatch of two tasks, one scratch output. -/
def twoTiles : List RecordedTask :=
  [⟨[0], ⟨0, 0, [.binding 0], [.scratch 0], by decide⟩⟩,
    ⟨[0], ⟨0, 0, [.binding 0], [.scratch 0], by decide⟩⟩]

/-- Its first task submitted, the second one refused. -/
def secondSubmitFails : List Action :=
  [.create 0, .record 0 [(0, 4096)] twoTiles, .execute 0 0, .advance 0 true, .advance 0 true,
    .advance 0 true, .advance 0 false]

/-- The first task is in flight while its program's buffer lies in the pool. -/
theorem failed_submit_recycles : ¬ ∀ (policy : Policy) (run : List Action) (earlier : List Action),
    earlier <+: run → (Runs.after (step policy) .init earlier).Unrecycled := by
  intro h
  have hsafe := h ⟨true, 2 ^ 28⟩ secondSubmitFails secondSubmitFails (List.prefix_refl _)
  refine hsafe 0 ⟨⟨1, 0, 4096⟩, ⟨0, 0, [.binding 0], [.scratch 0], by decide⟩⟩ ?_ (.scratch 1)
    List.mem_cons_self ?_
  · decide
  · show 1 ∈ _
    decide

end IreeRocket.Queue
