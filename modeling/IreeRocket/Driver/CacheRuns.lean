import IreeRocket.Driver.StagingSteps

/-!
# A step of the system

Every step of the driver keeps the invariant of the weight cache (`CacheInv.step`), on two conditions
the driver does not check (`Unwritten`): that a dispatch served from the cache begins before its
binding is written, and that no write comes between the bytes a dispatch takes and the generation it
publishes them under.
-/

namespace IreeRocket.Driver

open Conv Weights WeightCache Runs

/-- The write to a buffer that an action attempts. -/
def State.writeOf (s : State) : Action → Option (Nat × Nat × Bytes)
  | .write buffer offset bytes => some (buffer, offset, bytes)
  | .advance index => do
    let execution ← s.execution index
    match ← s.operation execution with
    | .transfer op => some (op.target.buffer, op.target.offset, s.transferBytes op)
    | .dispatch _ => none
  | .finish index (some bytes) => do
    let execution ← s.execution index
    match ← s.operation execution with
    | .transfer _ => none
    | .dispatch op =>
      guard (op.staging.length < execution.staged ∧ bytes.length ≤ op.output.length)
      some (op.output.buffer, op.output.offset, bytes)
  | _ => none

/-- The action changes the buffer's bytes. -/
def State.Writes (s : State) (a : Action) (buffer : Nat) : Prop :=
  ∃ offset bytes, s.writeOf a = some (buffer, offset, bytes) ∧
    offset + bytes.length ≤ (s.buffers buffer).bytes.length

/-- The two conditions. A dispatch served from the cache begins while its weight binding's buffer is
at the generation that recording saw, and no write changes the buffer while an execution that has
begun a dispatch on it still has to publish bytes it has taken, or a generation it has yet to read,
from before the write. -/
structure Unwritten (s : State) (a : Action) : Prop where
  served : ∀ index execution op, a = .advance index → s.execution index = some execution →
    execution.staged = 0 → s.operation execution = some (.dispatch op) → op.servedFromCache →
    (s.buffers op.weights.buffer).generation = op.fanout.generation
  covered : ∀ buffer, s.Writes a buffer → ∀ index execution op, s.execution index = some execution →
    0 < execution.staged → s.operation execution = some (.dispatch op) → op.fanout.key.isSome →
    op.weights.buffer = buffer → exposed (op.staging.drop execution.staged) = false

section

variable {settings : Settings} {registry : Nat → Allotment} {seen : Nat → Nat → Bytes → Prop}
  {base : Nat → Nat} {s s' : State} {op : Dispatch}

/-! ### Executions -/

theorem execution_setExecution (s : State) (index other : Nat) (execution : Option Execution) :
    (s.setExecution index execution).execution other =
      if other = index ∧ index < s.executions.length then execution else s.execution other := by
  simp only [State.execution, State.setExecution, List.getD_eq_getElem?_getD, List.getElem?_set]
  by_cases hother : index = other
  · subst hother
    by_cases hlt : index < s.executions.length
    · simp [hlt]
    · simp [hlt]
  · rw [if_neg hother, if_neg fun h => hother h.1.symm]

theorem lt_of_execution {index : Nat} {execution : Execution}
    (h : s.execution index = some execution) : index < s.executions.length := by
  by_contra hlt
  simp [State.execution, List.getD_eq_getElem?_getD, List.getElem?_eq_none (not_lt.mp hlt)] at h

/-- How the generations that dispatches began at change in a step: an execution in the middle of a
dispatch keeps its own, and one that begins it has the present generation. -/
def Rebased (base base' : Nat → Nat) (s s' : State) : Prop :=
  ∀ index execution', s'.execution index = some execution' → 0 < execution'.staged →
    ∃ execution, s.execution index = some execution ∧
      execution.commandBuffer = execution'.commandBuffer ∧ execution.cursor = execution'.cursor ∧
      (0 < execution.staged ∧ base' index = base index ∨ ∃ op,
        s.operation execution = some (.dispatch op) ∧
          base' index = (s.buffers op.weights.buffer).generation)

theorem Rebased.of_executions (h : ∀ index execution, s'.execution index = some execution →
    0 < execution.staged → s.execution index = some execution) : Rebased base base s s' :=
  fun index execution hexecution hbegun =>
    ⟨execution, h index execution hexecution hbegun, rfl, rfl, .inl ⟨hbegun, rfl⟩⟩

/-- Ending an execution, or moving it on to its next operation. -/
theorem setExecution_unbegun {index : Nat} {execution : Option Execution}
    (hnew : ∀ e, execution = some e → e.staged = 0) :
    ∀ other e, (s.setExecution index execution).execution other = some e → 0 < e.staged →
      s.execution other = some e := by
  intro other e he hbegun
  rw [execution_setExecution] at he
  split_ifs at he with hsame
  · have hzero := hnew e he
    omega
  · exact he

/-- A queued execution has not begun. -/
theorem execution_execute (settings : Settings) (s : State) (commandBuffer : Nat) :
    ∀ index execution,
      (step settings s (.execute commandBuffer)).execution index = some execution →
      0 < execution.staged → s.execution index = some execution := by
  intro index execution hexecution hbegun
  simp only [step, State.execution, List.getD_eq_getElem?_getD, List.getElem?_append] at hexecution ⊢
  split_ifs at hexecution with hlt
  · exact hexecution
  · cases hindex : index - s.executions.length with
    | zero =>
      simp only [hindex, List.getElem?_cons_zero, Option.getD_some, Option.some.injEq] at hexecution
      rw [← hexecution] at hbegun
      cases hbegun
    | succ n => simp [hindex] at hexecution

/-- A step that leaves everything but the executions, and begins nothing. -/
theorem CacheInv.setExecution (h : CacheInv settings registry seen s base) {index : Nat}
    {execution : Option Execution} (hnew : ∀ e, execution = some e → e.staged = 0) :
    CacheInv settings registry seen (s.setExecution index execution) base :=
  h.of_memory rfl rfl (fun _ _ => rfl) (fun _ _ hmem => hmem) rfl (setExecution_unbegun hnew)
    fun _ _ op _ _ _ => covered_nowhere op _

/-- An execution that takes a step of its dispatch. -/
theorem CacheInv.setUnderWay (h : CacheInv settings registry seen s base) {index since : Nat}
    {execution : Execution} (hop : s.operation execution = some (.dispatch op))
    (hunderway : UnderWay settings registry seen s op since execution) :
    CacheInv settings registry seen (s.setExecution index (some execution))
      (Function.update base index since) := by
  have hkeeps : Keeps settings registry registry seen nowhere s
      (s.setExecution index (some execution)) := .of_memory rfl rfl fun _ _ => rfl
  refine ⟨h.sized, fun key entry hmem => (h.entries key entry hmem).keeps hkeeps,
    fun i d hd => (h.ops i d hd).keeps hkeeps, fun other e he hbegun => ?_⟩
  rw [execution_setExecution] at he
  have hkept {d : Dispatch} {since : Nat} {e : Execution} (hd : s.operation e = some (.dispatch d))
      (hold : UnderWay settings registry seen s d since e) :
      UnderWay settings registry seen (s.setExecution index (some execution)) d since e :=
    hold.keeps (h.ops _ d (List.mem_of_getElem? hd)) hkeeps (covered_nowhere d e)
  split_ifs at he with hsame
  · obtain rfl := Option.some.inj he
    rw [hsame.1, Function.update_self]
    exact ⟨op, hop, hkept hop hunderway⟩
  · by_cases hother : other = index
    · subst hother
      exact absurd ⟨rfl, lt_of_execution he⟩ hsame
    · rw [Function.update_of_ne hother]
      obtain ⟨d, hd, hold⟩ := h.executions other e he hbegun
      exact ⟨d, hd, hkept hd hold⟩

/-! ### Writes -/

/-- A write to a buffer that no exposed publication is from. -/
theorem CacheInv.write (h : CacheInv settings registry seen s base) {buffer offset : Nat}
    {bytes : Bytes} (hcovered : ∀ index execution op, s.execution index = some execution →
      0 < execution.staged → s.operation execution = some (.dispatch op) →
      Covered settings (· = buffer) op execution) :
    CacheInv settings registry seen (s.writeBuffer buffer offset bytes) base :=
  h.of_memory rfl rfl (fun _ hb => Function.update_of_ne hb _ _) (fun _ _ hmem => hmem) rfl
    (fun _ _ hexecution _ => hexecution) hcovered

theorem mapWrite_some {buffer offset : Nat} {bytes : Bytes}
    (h : s.mapWrite buffer offset bytes = some s') :
    offset + bytes.length ≤ (s.buffers buffer).bytes.length ∧
      s' = s.writeBuffer buffer offset bytes := by
  unfold State.mapWrite at h
  split_ifs at h with hfits
  exact ⟨hfits, (Option.some.inj h).symm⟩

/-- What a covered write is, from the condition on the action that makes it. -/
theorem Unwritten.writes {a : Action} (h : settings.enabled → Unwritten s a) {buffer : Nat}
    (hwrites : s.Writes a buffer) (index : Nat) (execution : Execution) (op : Dispatch)
    (hexecution : s.execution index = some execution) (hbegun : 0 < execution.staged)
    (hop : s.operation execution = some (.dispatch op)) :
    Covered settings (· = buffer) op execution := by
  rintro henabled hkey hexposed rfl
  have hsafe := (h henabled).covered op.weights.buffer hwrites index execution op hexecution hbegun hop
    hkey rfl
  rw [hsafe] at hexposed
  cases hexposed

/-- An execution that writes a buffer moves on or ends. -/
theorem CacheInv.wrote (h : CacheInv settings registry seen s base) {index : Nat}
    {execution : Execution} {buffer offset : Nat} {bytes : Bytes} {outcome : Option State}
    (houtcome : ∀ s', outcome = some s' → s.mapWrite buffer offset bytes = some s')
    (hcovered : offset + bytes.length ≤ (s.buffers buffer).bytes.length →
      ∀ index execution op, s.execution index = some execution → 0 < execution.staged →
      s.operation execution = some (.dispatch op) → Covered settings (· = buffer) op execution) :
    CacheInv settings registry seen (s.wrote index execution outcome) base ∧
      Rebased base base s (s.wrote index execution outcome) := by
  cases outcome with
  | none => exact ⟨h.setExecution nofun, Rebased.of_executions (setExecution_unbegun nofun)⟩
  | some s' =>
    obtain ⟨hfits, rfl⟩ := mapWrite_some (houtcome s' rfl)
    have hnext : ∀ e, some execution.next = some e → e.staged = 0 := fun e he => by
      rw [← Option.some.inj he]
      rfl
    exact ⟨(h.write (hcovered hfits)).setExecution hnext,
      Rebased.of_executions (setExecution_unbegun hnext)⟩

/-! ### Steps -/

/-- With the cache disabled nothing is served from it. -/
theorem Staged.enabled_of_served (h : Staged settings registry seen s op)
    (hserved : op.servedFromCache) : settings.enabled := by
  unfold Staged at h
  split at h
  next key hkey =>
    obtain ⟨gem, -, hhome, hreplicas⟩ := h.home
    simp only [Dispatch.servedFromCache, hkey, Option.isSome_some, Bool.true_and, Bool.or_eq_true,
      List.any_eq_true] at hserved
    rcases hserved with hnone | ⟨replica, hreplica, hhit⟩
    · cases hhome with
      | hit _ _ served => exact served.enabled
      | shared _ _ _ _ _ served => exact served.enabled
      | packs _ packing => simp [packing] at hnone
    · have hreplica := hreplicas replica hreplica
      generalize replica.weights = weights at hreplica hhit
      cases hreplica with
      | hit gem served => exact served.enabled
      | published => cases hhit
      | copied => cases hhit
  next hkey => simp [Dispatch.servedFromCache, hkey] at hserved

/-- Recording leaves the buffers, the executions and the allocations there are alone; it may allocate
and drop cache entries. -/
structure OnlyRecords (s s' : State) : Prop where
  buffers : s'.buffers = s.buffers
  executions : s'.executions = s.executions
  next : s.nextGem ≤ s'.nextGem
  gems : ∀ gem < s.nextGem, s'.gems gem = s.gems gem
  entries : ∀ key entry, (key, entry) ∈ s'.cache.entries → (key, entry) ∈ s.cache.entries
  ops : ∀ i, (s.commandBuffers i).ops <+: (s'.commandBuffers i).ops

theorem OnlyRecords.refl (s : State) : OnlyRecords s s :=
  ⟨rfl, rfl, le_rfl, fun _ _ => rfl, fun _ _ hmem => hmem, fun _ => List.prefix_refl _⟩

theorem OnlyRecords.trans {s'' : State} (h : OnlyRecords s s') (h' : OnlyRecords s' s'') : OnlyRecords s s'' where
  buffers := h'.buffers.trans h.buffers
  executions := h'.executions.trans h.executions
  next := h.next.trans h'.next
  gems gem hgem := (h'.gems gem (hgem.trans_le h.next)).trans (h.gems gem hgem)
  entries key entry hmem := h.entries key entry (h'.entries key entry hmem)
  ops i := (h.ops i).trans (h'.ops i)

theorem OnlyRecords.allocate (s : State) (length : Nat) : OnlyRecords s (s.allocate length) :=
  ⟨rfl, rfl, Nat.le_succ _, fun _ hgem => Function.update_of_ne hgem.ne _ _, fun _ _ hmem => hmem,
    fun _ => List.prefix_refl _⟩

theorem OnlyRecords.lookupUnless (settings : Settings) (s : State) (pending : Bool) (key : Key)
    (generation : Nat) :
    OnlyRecords s { s with cache := (s.lookupUnless settings pending key generation).2 } :=
  ⟨rfl, rfl, le_rfl, fun _ _ => rfl, fun _ _ hmem => lookupUnless_mem hmem,
    fun _ => List.prefix_refl _⟩

theorem onlyRecords_push (s : State) (commandBuffer : Nat) (op : RecordedOp) :
    OnlyRecords s (s.push commandBuffer op) := by
  refine ⟨rfl, rfl, le_rfl, fun _ _ => rfl, fun _ _ hmem => hmem, fun i => ?_⟩
  simp only [State.push, Function.update_apply]
  split_ifs with hi
  · rw [hi]
    exact List.prefix_append _ _
  · exact List.prefix_refl _

theorem onlyRecords_buildReplicas (settings : Settings) (ref : BufferRef) (staged : StagedWeights)
    (contexts : List Nat) :
    ∀ s : State, OnlyRecords s (State.buildReplicas settings ref staged s contexts).1 := by
  induction contexts with
  | nil => exact OnlyRecords.refl
  | cons context contexts ih =>
    intro s
    refine OnlyRecords.trans ?_ (ih (s.buildReplica settings ref staged context).1)
    unfold State.buildReplica State.packedReplica
    split
    · simp only
      split
      · exact .lookupUnless settings s _ _ _
      · exact (OnlyRecords.lookupUnless settings s _ _ _).trans (.allocate _ _)
    · exact .allocate _ _

theorem onlyRecords_recordDispatch (settings : Settings) (s : State) (commandBuffer : Nat)
    (request : DispatchRequest) : OnlyRecords s (s.recordDispatch settings commandBuffer request) := by
  have hrecorded {staged : State × StagedWeights × List StagedCopy} (tiles : Nat)
      (plan : Weights.WeightPlan) (hstaged : OnlyRecords s staged.1) :
      OnlyRecords s (State.recordStaged settings commandBuffer request tiles plan staged) :=
    (hstaged.trans (onlyRecords_buildReplicas settings request.weights staged.2.1 _ staged.1)).trans
      (onlyRecords_push _ commandBuffer _)
  unfold State.recordDispatch
  split
  · simp only
    split_ifs
    · split
      · split_ifs
        · refine hrecorded _ _ ?_
          unfold State.stageDirect
          simp only
          split_ifs
          · exact .refl s
          · exact .allocate s _
        · exact .refl s
      · exact .refl s
    · split
      · refine hrecorded _ _ ?_
        unfold State.stageWeights
        simp only
        split
        · exact .lookupUnless settings s _ _ _
        · split <;> exact (OnlyRecords.lookupUnless settings s _ _ _).trans (.allocate _ _)
      · exact .refl s
  · exact .refl s

/-- An execution takes a step of the dispatch it is at. -/
theorem Rebased.setExecution {index since : Nat} {execution execution' : Execution}
    (hexecutions : s'.executions = s.executions) (hold : s.execution index = some execution)
    (hcommandBuffer : execution.commandBuffer = execution'.commandBuffer)
    (hcursor : execution.cursor = execution'.cursor)
    (hsince : 0 < execution.staged ∧ since = base index ∨ ∃ op,
      s.operation execution = some (.dispatch op) ∧
        since = (s.buffers op.weights.buffer).generation) :
    Rebased base (Function.update base index since) s (s'.setExecution index (some execution')) := by
  intro other e he hbegun
  have hframe : s'.execution other = s.execution other := by
    rw [State.execution, hexecutions, State.execution]
  rw [execution_setExecution] at he
  by_cases hother : other = index
  · subst hother
    rw [if_pos ⟨rfl, hexecutions ▸ lt_of_execution hold⟩] at he
    obtain rfl := Option.some.inj he
    rw [Function.update_self]
    exact ⟨execution, hold, hcommandBuffer, hcursor, hsince⟩
  · rw [if_neg fun h => hother h.1, hframe] at he
    rw [Function.update_of_ne hother]
    exact ⟨e, he, rfl, rfl, .inl ⟨hbegun, rfl⟩⟩

/-- **An execution's next staging step, or its submission, keeps the invariant.** -/
theorem CacheInv.stage (h : CacheInv settings registry seen s base) (hist : History seen s)
    {index : Nat} {execution : Execution} (hexecution : s.execution index = some execution)
    (hop : s.operation execution = some (.dispatch op))
    (hunwritten : settings.enabled → Unwritten s (.advance index)) :
    ∃ base', CacheInv settings registry seen (s.advance settings index) base' ∧
      Rebased base base' s (s.advance settings index) := by
  have hstaged := h.ops _ op (List.mem_of_getElem? hop)
  have hserved : execution.staged = 0 → op.servedFromCache →
      (s.buffers op.weights.buffer).generation = op.fanout.generation := fun hzero hserved =>
    (hunwritten (hstaged.enabled_of_served hserved)).served index execution op rfl hexecution hzero
      hop hserved
  have hunderway : 0 < execution.staged →
      UnderWay settings registry seen s op (base index) execution := by
    intro hpos
    obtain ⟨op', hop', hold⟩ := h.executions index execution hexecution hpos
    obtain rfl := RecordedOp.dispatch.inj (Option.some.inj (hop'.symm.trans hop))
    exact hold
  unfold State.advance
  simp only [hexecution, hop]
  split
  next step hnext =>
    split
    next s' noted hstep =>
      rcases Nat.eq_zero_or_pos execution.staged with hzero | hpos
      · rw [hzero] at hnext
        obtain ⟨happlied, hnew⟩ := hstaged.begin h hist (hserved hzero) hnext hstep
        rw [hzero]
        refine ⟨_, happlied.inv.setUnderWay ?_ hnew,
          Rebased.setExecution happlied.executions hexecution rfl rfl (.inr ⟨op, hop, rfl⟩)⟩
        unfold State.operation at hop ⊢
        rw [happlied.commandBuffers]
        exact hop
      · obtain ⟨happlied, hnew⟩ := (hunderway hpos).step h hist hstaged hnext hstep
        refine ⟨_, happlied.inv.setUnderWay ?_ hnew,
          Rebased.setExecution happlied.executions hexecution rfl rfl (.inl ⟨hpos, rfl⟩)⟩
        unfold State.operation at hop ⊢
        rw [happlied.commandBuffers]
        exact hop
    next => exact ⟨base, h.setExecution nofun, Rebased.of_executions (setExecution_unbegun nofun)⟩
  next hnext =>
    have hdone := List.getElem?_eq_none_iff.mp hnext
    rcases Nat.eq_zero_or_pos execution.staged with hzero | hpos
    · refine ⟨_, h.setUnderWay hop (hstaged.begin_nothing hist (hserved hzero) ?_ _),
        Rebased.setExecution rfl hexecution rfl rfl (.inr ⟨op, hop, rfl⟩)⟩
      exact List.eq_nil_of_length_eq_zero (by omega)
    · have hsubmitted : UnderWay settings registry seen s op (base index)
          { execution with staged := op.staging.length + 1 } := by
        have hold := hunderway hpos
        unfold UnderWay at *
        simp only [List.drop_eq_nil_of_le hdone] at hold
        simp only [List.drop_eq_nil_of_le (Nat.le_succ op.staging.length)]
        exact hold
      exact ⟨_, h.setUnderWay hop hsubmitted,
        Rebased.setExecution rfl hexecution rfl rfl (.inl ⟨hpos, rfl⟩)⟩

theorem Rebased.same {s' : State} (hexecutions : s'.executions = s.executions) : Rebased base base s s' :=
  Rebased.of_executions fun index execution hexecution _ => by
    rwa [State.execution, hexecutions] at hexecution

/-- An execution's next step keeps the invariant. -/
theorem CacheInv.advance (h : CacheInv settings registry seen s base) (hist : History seen s) {index : Nat}
    (hunwritten : settings.enabled → Unwritten s (.advance index)) :
    ∃ base', CacheInv settings registry seen (s.advance settings index) base' ∧
      Rebased base base' s (s.advance settings index) := by
  cases hexecution : s.execution index with
  | none =>
    simp only [State.advance, hexecution]
    exact ⟨base, h, .same rfl⟩
  | some execution =>
    cases hop : s.operation execution with
    | none =>
      simp only [State.advance, hexecution, hop]
      exact ⟨base, h.setExecution nofun, Rebased.of_executions (setExecution_unbegun nofun)⟩
    | some op =>
      cases op with
      | transfer op =>
        have hwrite : s.writeOf (.advance index) =
            some (op.target.buffer, op.target.offset, s.transferBytes op) := by
          simp [State.writeOf, hexecution, hop]
        simp only [State.advance, hexecution, hop]
        exact ⟨base, h.wrote (fun _ houtcome => houtcome) fun hfits =>
          Unwritten.writes hunwritten ⟨_, _, hwrite, hfits⟩⟩
      | dispatch op => exact h.stage hist hexecution hop hunwritten

/-- The end of a job keeps the invariant. -/
theorem CacheInv.finish (h : CacheInv settings registry seen s base) {index : Nat} {result : Option Bytes}
    (hunwritten : settings.enabled → Unwritten s (.finish index result)) :
    CacheInv settings registry seen (s.finish index result) base ∧
      Rebased base base s (s.finish index result) := by
  unfold State.finish
  split
  · exact ⟨h, .same rfl⟩
  next execution hexecution =>
    split
    next op hop =>
      split_ifs with hsubmitted
      · cases result with
        | none =>
          have hnext : ∀ e, some execution.next = some e → e.staged = 0 := fun e he => by
            rw [← Option.some.inj he]
            rfl
          exact ⟨h.setExecution hnext, Rebased.of_executions (setExecution_unbegun hnext)⟩
        | some bytes =>
          by_cases hlength : bytes.length ≤ op.output.length
          · have hwrite : s.writeOf (.finish index (some bytes)) =
                some (op.output.buffer, op.output.offset, bytes) := by
              simp [State.writeOf, hexecution, hop, hsubmitted, hlength]
            simp only [if_pos hlength]
            exact h.wrote (fun _ houtcome => houtcome) fun hfits =>
              Unwritten.writes hunwritten ⟨_, _, hwrite, hfits⟩
          · simp only [if_neg hlength]
            exact ⟨h.setExecution nofun, Rebased.of_executions (setExecution_unbegun nofun)⟩
      · exact ⟨h, .same rfl⟩
    · exact ⟨h, .same rfl⟩

/-- **A step keeps the invariant**, on the two conditions where the cache is enabled. -/
theorem CacheInv.step (h : CacheInv settings registry seen s base) (hist : History seen s) {a : Action}
    (hunwritten : settings.enabled → Unwritten s a) :
    ∃ registry' base', CacheInv settings registry' seen (step settings s a) base' ∧
      Rebased base base' s (step settings s a) := by
  cases a with
  | record commandBuffer op =>
    exact ⟨registry, base, h.push commandBuffer (fun d hd => nomatch hd), .same rfl⟩
  | dispatch commandBuffer request =>
    obtain ⟨registry', hinv⟩ := h.recordDispatch commandBuffer request
    exact ⟨registry', base, hinv, .same (onlyRecords_recordDispatch settings s commandBuffer request).executions⟩
  | write buffer offset bytes =>
    refine ⟨registry, base, ?_⟩
    simp only [Driver.step]
    cases houtcome : s.mapWrite buffer offset bytes with
    | none => exact ⟨h, .same rfl⟩
    | some s' =>
      obtain ⟨hfits, rfl⟩ := mapWrite_some houtcome
      exact ⟨h.write (Unwritten.writes hunwritten ⟨offset, bytes, rfl, hfits⟩), .same rfl⟩
  | execute commandBuffer =>
    have hnew := execution_execute settings s commandBuffer
    exact ⟨registry, base, h.of_memory rfl rfl (fun _ _ => rfl) (fun _ _ hmem => hmem) rfl hnew
      fun _ _ op _ _ _ => covered_nowhere op _, Rebased.of_executions hnew⟩
  | advance index => exact ⟨registry, h.advance hist hunwritten⟩
  | finish index result => exact ⟨registry, base, h.finish hunwritten⟩
  | abort index =>
    exact ⟨registry, base, h.setExecution nofun, Rebased.of_executions (setExecution_unbegun nofun)⟩

/-! ### What a step leaves alone -/

/-- What a staging step does: note a generation, fill an allocation, or publish. -/
theorem applyStep_some {generation noted : Nat} {step : StagingStep}
    (h : s.applyStep settings generation step = some (s', noted)) :
    (∃ buffer, step = .note buffer ∧ s' = s ∧
      ∀ b, buffer = some b → noted = (s.buffers b).generation) ∨
    (∃ gem bytes, step.target = some gem ∧ s' = s.writeGem gem bytes ∧ noted = generation) ∨
    ∃ publish gem, step = .publish publish gem ∧
      s' = s.publish settings publish generation gem := by
  cases step with
  | note buffer =>
    cases buffer with
    | none =>
      obtain ⟨rfl, rfl⟩ := Prod.mk.inj (Option.some.inj h)
      exact .inl ⟨none, rfl, rfl, nofun⟩
    | some b =>
      obtain ⟨rfl, rfl⟩ := Prod.mk.inj (Option.some.inj h)
      exact .inl ⟨some b, rfl, rfl, fun b' hb => by rw [Option.some.inj hb]⟩
  | copy source length gem =>
    obtain ⟨rfl, rfl⟩ := Prod.mk.inj (Option.some.inj h)
    exact .inr (.inl ⟨gem, _, rfl, rfl, rfl⟩)
  | pack packing =>
    simp only [State.applyStep, State.applyWeightPacking, Option.bind_eq_bind, Option.map_eq_some_iff,
      Option.bind_eq_some_iff, Prod.mk.injEq, Option.some.injEq] at h
    obtain ⟨filled, ⟨-, -, -, -, packed, -, rfl⟩, rfl, rfl⟩ := h
    exact .inr (.inl ⟨packing.scratch, packed.2, rfl, rfl, rfl⟩)
  | publish publish gem =>
    obtain ⟨rfl, rfl⟩ := Prod.mk.inj (Option.some.inj h)
    exact .inr (.inr ⟨publish, gem, rfl, rfl⟩)

theorem applyStep_frame {generation noted : Nat} {step : StagingStep}
    (h : s.applyStep settings generation step = some (s', noted)) :
    s'.buffers = s.buffers ∧ s'.commandBuffers = s.commandBuffers ∧ s'.executions = s.executions := by
  rcases applyStep_some h with ⟨-, -, rfl, -⟩ | ⟨-, -, -, rfl, -⟩ | ⟨-, -, -, rfl⟩ <;>
    exact ⟨rfl, rfl, rfl⟩

/-- The action leaves the buffers alone, or makes the write it says; recorded operations stay. -/
structure Frame (s : State) (a : Action) (s' : State) : Prop where
  buffers : s'.buffers = s.buffers ∨ ∃ buffer offset bytes,
    s.writeOf a = some (buffer, offset, bytes) ∧
      offset + bytes.length ≤ (s.buffers buffer).bytes.length ∧
      s'.buffers = (s.writeBuffer buffer offset bytes).buffers
  ops : ∀ i, (s.commandBuffers i).ops <+: (s'.commandBuffers i).ops

theorem Frame.of_same {a : Action} (hbuffers : s'.buffers = s.buffers)
    (hops : s'.commandBuffers = s.commandBuffers) : Frame s a s' :=
  ⟨.inl hbuffers, fun i => by rw [hops]⟩

theorem OnlyRecords.frame {a : Action} (h : OnlyRecords s s') : Frame s a s' := ⟨.inl h.buffers, h.ops⟩

theorem Frame.wrote {a : Action} {index buffer offset : Nat} {execution : Execution} {bytes : Bytes}
    (hwrite : s.writeOf a = some (buffer, offset, bytes)) :
    Frame s a (s.wrote index execution (s.mapWrite buffer offset bytes)) := by
  cases houtcome : s.mapWrite buffer offset bytes with
  | none => exact .of_same rfl rfl
  | some s' =>
    obtain ⟨hfits, rfl⟩ := mapWrite_some houtcome
    exact ⟨.inr ⟨buffer, offset, bytes, hwrite, hfits, rfl⟩, fun _ => List.prefix_refl _⟩

/-- **The frame of a step.** -/
theorem step_frame (settings : Settings) (s : State) (a : Action) :
    Frame s a (step settings s a) := by
  cases a with
  | record commandBuffer op => exact (onlyRecords_push s commandBuffer _).frame
  | dispatch commandBuffer request =>
    exact (onlyRecords_recordDispatch settings s commandBuffer request).frame
  | write buffer offset bytes =>
    simp only [step]
    cases houtcome : s.mapWrite buffer offset bytes with
    | none => exact .of_same rfl rfl
    | some s' =>
      obtain ⟨hfits, rfl⟩ := mapWrite_some houtcome
      exact ⟨.inr ⟨buffer, offset, bytes, rfl, hfits, rfl⟩, fun _ => List.prefix_refl _⟩
  | execute commandBuffer => exact .of_same rfl rfl
  | abort index => exact .of_same rfl rfl
  | advance index =>
    simp only [step, State.advance]
    split
    · exact .of_same rfl rfl
    next execution hexecution =>
      split
      · exact .of_same rfl rfl
      next op hop => exact .wrote (by simp [State.writeOf, hexecution, hop])
      next op hop =>
        split
        · split
          next s' noted hstep =>
            obtain ⟨hbuffers, hops, -⟩ := applyStep_frame hstep
            exact .of_same hbuffers hops
          · exact .of_same rfl rfl
        · exact .of_same rfl rfl
  | finish index result =>
    simp only [step, State.finish]
    split
    · exact .of_same rfl rfl
    next execution hexecution =>
      split
      next op hop =>
        split_ifs with hsubmitted
        · cases result with
          | none => exact .of_same rfl rfl
          | some bytes =>
            by_cases hlength : bytes.length ≤ op.output.length
            · simp only [if_pos hlength]
              exact .wrote (by simp [State.writeOf, hexecution, hop, hsubmitted, hlength])
            · simp only [if_neg hlength]
              exact .of_same rfl rfl
        · exact .of_same rfl rfl
      · exact .of_same rfl rfl

end

/-! ### The history of a run -/

section

variable {settings : Settings} {s : State} {run earlier later : List Action} {a : Action}

/-- The two conditions, with the cache enabled. -/
def Ordered (settings : Settings) (s : State) (a : Action) : Prop :=
  settings.enabled → Unwritten s a

end

end IreeRocket.Driver
