import IreeRocket.Driver.CacheTransparency

/-!
# Published entries are honest

Under a key and a generation the cache holds the packing of the bytes the binding had at that
generation. This asks more of the runs than that dispatches read the right bytes: a packing must not
be published under a generation it is newer than either, and an allocation that is listed, or about to
be published, under an older generation must not be filled again, as it is when a command buffer that
packs is executed again after a write.
-/

namespace IreeRocket.Driver

open Conv Weights WeightCache Runs

/-- The staging step that an execution takes next. -/
def State.nextStep (s : State) (execution : Execution) : Option StagingStep :=
  match s.operation execution with
  | some (.dispatch op) => op.staging[execution.staged]?
  | _ => none

/-- The further conditions. No write comes between the generation an execution notes for a packing and
the packing; and a fill finds its allocation neither listed nor about to be published under a
generation other than the binding's. -/
structure Unrefilled (s : State) (a : Action) : Prop where
  packing : ∀ buffer, s.Writes a buffer → ∀ index execution packing,
    s.execution index = some execution → s.nextStep execution = some (.pack packing) →
    packing.weightBuffer ≠ buffer
  listed : ∀ index execution step gem, a = .advance index → s.execution index = some execution →
    s.nextStep execution = some step → step.target = some gem →
    ∀ key entry, (key, entry) ∈ s.cache.entries → entry.buffer = gem →
      entry.generation = (s.buffers key.buffer).generation
  publishing : ∀ index execution step gem, a = .advance index → s.execution index = some execution →
    s.nextStep execution = some step → step.target = some gem →
    ∀ other e publish, s.execution other = some e → s.nextStep e = some (.publish publish gem) →
      e.generation = (s.buffers publish.key.buffer).generation

/-- The allocation holds the packing of the bytes the binding had at `generation`. -/
def HoldsAt (seen : Nat → Nat → Bytes → Prop) (s : State) (key : Key) (generation gem : Nat) : Prop :=
  ∃ x, seen key.buffer generation x ∧ Holds key x (s.gems gem)

/-- **The invariant of honest entries.** -/
structure Honest (seen : Nat → Nat → Bytes → Prop) (s : State) : Prop where
  entries : ∀ key entry, (key, entry) ∈ s.cache.entries →
    HoldsAt seen s key entry.generation entry.buffer
  publishing : ∀ index execution op publish gem, s.execution index = some execution →
    0 < execution.staged → s.operation execution = some (.dispatch op) →
    op.staging[execution.staged]? = some (.publish publish gem) →
    HoldsAt seen s publish.key execution.generation gem
  noted : ∀ index execution op buffer, s.execution index = some execution → execution.staged = 1 →
    s.operation execution = some (.dispatch op) → op.staging[0]? = some (.note (some buffer)) →
    execution.generation = (s.buffers buffer).generation

section

variable {settings : Settings} {registry registry' : Nat → Allotment}
  {seen : Nat → Nat → Bytes → Prop} {base base' : Nat → Nat} {s s' : State} {op : Dispatch} {key : Key}
  {home : Nat}

theorem HoldsAt.of_gems {generation gem : Nat} (h : HoldsAt seen s key generation gem)
    (hgems : s'.gems gem = s.gems gem) : HoldsAt seen s' key generation gem := by
  obtain ⟨x, hx, hholds⟩ := h
  exact ⟨x, hx, hgems ▸ hholds⟩

/-- What is served at the present generation is exact. -/
theorem Served.holdsAt (hist : History seen s) {generation gem : Nat}
    (h : Served settings registry seen s key generation gem)
    (hgeneration : (s.buffers key.buffer).generation = generation) :
    HoldsAt seen s key generation gem :=
  ⟨_, hgeneration ▸ hist.current key.buffer, h.current hist hgeneration⟩

theorem isPublish_of_target {step : StagingStep} {gem : Nat} (h : step.target = some gem) :
    step.isPublish = false := by
  cases step with
  | publish => cases h
  | note => rfl
  | copy => rfl
  | pack => rfl

/-- The staging of replicas starts with a copy. -/
theorem copy_of_replicaSteps {replicas : List Replica} {step : StagingStep}
    {rest : List StagingStep} (h : op.replicaSteps replicas = step :: rest) :
    ∃ source length gem, step = .copy source length gem := by
  induction replicas with
  | nil => cases h
  | cons replica replicas ih =>
    rw [Dispatch.replicaSteps, List.flatMap_cons] at h
    unfold Replica.staging at h
    split at h
    · exact ⟨_, _, _, (List.cons.inj h).1.symm⟩
    · exact ih h
    · exact ⟨_, _, _, (List.cons.inj h).1.symm⟩

/-- The first step of a dispatch is to note the binding's generation, or zero, or to copy. -/
theorem Staged.first (h : Staged settings registry seen s op) {step : StagingStep}
    (hfirst : op.staging[0]? = some step) :
    (∃ source length gem, step = .copy source length gem) ∨ step = .note none ∨
      ∃ key home, op.fanout.key = some key ∧ op.operand = .gem home ∧ op.homeSteps ≠ [] ∧
        step = .note (some key.buffer) := by
  unfold Staged at h
  split at h
  next key hkey =>
    obtain ⟨home, hoperand, hhome, -⟩ := h.home
    by_cases hnone : op.homeSteps = []
    · rw [Dispatch.staging_eq, hnone, List.nil_append] at hfirst
      cases hsteps : op.replicaSteps op.replicas with
      | nil =>
        rw [hsteps] at hfirst
        cases hfirst
      | cons first rest =>
        rw [hsteps] at hfirst
        obtain rfl := Option.some.inj hfirst
        exact .inl (copy_of_replicaSteps hsteps)
    · obtain ⟨fill, hsteps, -⟩ := hhome.steps hnone
      rw [Dispatch.staging_eq, hsteps] at hfirst
      exact .inr (.inr ⟨key, home, hkey, hoperand, hnone, (Option.some.inj hfirst).symm⟩)
  next hkey =>
    rcases h.step_of_mem (List.mem_of_getElem? hfirst) with hnote | ⟨gem, _, hcopy⟩
    · exact .inr (.inl hnote)
    · exact .inl ⟨_, _, gem, hcopy⟩

/-- **What comes before a publication**: the note of the generation, or the fill of the dispatch's own
allocation and before it the note. -/
theorem InFlight.before_publish (hop : CachedDispatch settings registry seen s op key)
    (hoperand : op.operand = .gem home) {since generation : Nat} {phase : Phase}
    (hflight : InFlight settings registry seen s op key home since generation phase)
    {publish : WeightPublish} {gem : Nat} {staged : Nat} {rest : List StagingStep}
    (hpending : op.staging.drop (staged + 1) = phase.pending op)
    (hnext : phase.pending op = .publish publish gem :: rest) :
    phase.ready key home = some (publish.key, gem) ∧
      (op.staging[staged]? = some (.note (some publish.key.buffer)) ∨
        staged = 1 ∧ op.staging[0]? = some (.note (some publish.key.buffer)) ∧
          ∃ fill, op.staging[1]? = some fill ∧ fill.target = some gem) := by
  obtain ⟨hhome, hreplicas⟩ := hop.staged hoperand
  cases phase with
  | noted =>
    obtain ⟨fill, hsteps, htarget, -⟩ := hhome.steps hflight.placed
    have hfill : fill = .publish publish gem := by
      rw [Phase.pending, hsteps] at hnext
      exact (List.cons.inj hnext).1
    rw [hfill] at htarget
    cases htarget
  | filled =>
    obtain ⟨fill, hsteps, htarget, -⟩ := hhome.steps hflight.placed
    have hpublish := hnext
    rw [Phase.pending, hsteps] at hpublish
    obtain ⟨hpublish, -⟩ := List.cons.inj hpublish
    obtain ⟨rfl, rfl⟩ := StagingStep.publish.inj hpublish
    have hlength := congrArg List.length hpending
    rw [Phase.pending, Dispatch.staging_eq, hsteps] at hlength
    simp only [List.length_drop, List.length_append, List.length_cons, List.length_nil,
      List.drop_succ_cons, List.drop_zero] at hlength
    refine ⟨rfl, .inr ⟨by omega, ?_, fill, ?_, htarget⟩⟩ <;> rw [Dispatch.staging_eq, hsteps] <;> rfl
  | between replicas =>
    obtain ⟨_, _, _, hcopy⟩ := copy_of_replicaSteps hnext
    cases hcopy
  | copied replica replicas =>
    obtain ⟨hsuffix, hlength⟩ := hflight.placed
    rcases (hreplicas replica (hsuffix.subset List.mem_cons_self)).steps hhome.weightBuffer with
      ⟨-, hsteps⟩ | ⟨-, hsteps⟩ | ⟨-, hsteps⟩
    · simp [hsteps] at hlength
    · rw [Phase.pending, hsteps] at hnext
      exact absurd (List.cons.inj hnext).1 (by simp)
    · simp [hsteps] at hlength
  | tagged replica replicas =>
    obtain ⟨⟨done, hdone⟩, hlength⟩ := hflight.placed
    have hmem : replica ∈ op.replicas := hdone ▸ List.mem_append_right done List.mem_cons_self
    rcases (hreplicas replica hmem).steps hhome.weightBuffer with
      ⟨-, hsteps⟩ | ⟨-, hsteps⟩ | ⟨-, hsteps⟩
    · simp [hsteps] at hlength
    · have hpublish := hnext
      rw [Phase.pending, hsteps] at hpublish
      obtain ⟨rfl, rfl⟩ := StagingStep.publish.inj (List.cons.inj hpublish).1
      have hstaging : op.staging = (op.homeSteps ++ op.replicaSteps done ++
          [.copy (.host home) key.geometry.scratchLength replica.weights.gem]) ++
          .note (some key.buffer) :: .publish ⟨{ key with context := replica.context },
            key.geometry.scratchLength⟩ replica.weights.gem :: op.replicaSteps replicas := by
        rw [Dispatch.staging_eq, ← hdone]
        simp [Dispatch.replicaSteps, hsteps]
      have hcount := congrArg List.length hpending
      rw [Phase.pending, hsteps, hstaging] at hcount
      simp only [List.length_drop, List.length_append, List.length_cons, List.length_nil,
        List.drop_succ_cons, List.drop_zero] at hcount
      refine ⟨rfl, .inl ?_⟩
      rw [hstaging, List.getElem?_append_right (by simp; omega)]
      have hzero : staged - (op.homeSteps ++ op.replicaSteps done ++
          [StagingStep.copy (.host home) key.geometry.scratchLength replica.weights.gem]).length = 0 := by
        simp only [List.length_append, List.length_cons, List.length_nil]
        omega
      rw [hzero]
      rfl
    · simp [hsteps] at hlength

/-- An execution that is about to publish holds a packing made at the noted generation or later, which
it noted right before, or before it filled its own allocation. -/
theorem CacheInv.publishing (h : CacheInv settings registry seen s base) (henabled : settings.enabled)
    {index : Nat} {execution : Execution} {publish : WeightPublish} {gem : Nat}
    (hexecution : s.execution index = some execution) (hbegun : 0 < execution.staged)
    (hop : s.operation execution = some (.dispatch op))
    (hnext : op.staging[execution.staged]? = some (.publish publish gem)) :
    Served settings registry seen s publish.key execution.generation gem ∧
      (op.staging[execution.staged - 1]? = some (.note (some publish.key.buffer)) ∨
        execution.staged = 2 ∧ op.staging[0]? = some (.note (some publish.key.buffer)) ∧
          ∃ fill, op.staging[1]? = some fill ∧ fill.target = some gem) := by
  obtain ⟨op', hop', hunderway⟩ := h.executions index execution hexecution hbegun
  obtain rfl := RecordedOp.dispatch.inj (Option.some.inj (hop'.symm.trans hop))
  have hstaged := h.ops _ op' (List.mem_of_getElem? hop)
  obtain ⟨hlt, hget⟩ := List.getElem?_eq_some_iff.mp hnext
  have hdrop := List.drop_eq_getElem_cons hlt
  rw [hget] at hdrop
  obtain ⟨n, hn⟩ : ∃ n, execution.staged = n + 1 := ⟨execution.staged - 1, by omega⟩
  unfold UnderWay at hunderway
  unfold Staged at hstaged
  split at hstaged
  next key hkey =>
    simp only [hkey] at hunderway
    obtain ⟨home, phase, hoperand, hpending, hflight⟩ := hunderway
    have hphase := hdrop
    rw [hpending] at hphase
    rw [hn] at hpending
    obtain ⟨hready, hbefore⟩ := hflight.before_publish hstaged hoperand hpending hphase
    refine ⟨hflight.ready henabled publish.key gem hready, ?_⟩
    rw [hn]
    exact hbefore.imp id fun ⟨hone, hrest⟩ => ⟨by rw [hone], hrest⟩
  next hkey =>
    rcases hstaged.step_of_mem (List.getElem_mem hlt) with hnote | ⟨_, _, hcopy⟩
    · rw [hget] at hnote
      cases hnote
    · rw [hget] at hcopy
      cases hcopy

/-- While an execution has only noted a generation, its binding is not written. -/
theorem CacheInv.noted_unwritten (h : CacheInv settings registry seen s base) {a : Action}
    (hunwritten : Unwritten s a) (hunrefilled : Unrefilled s a) {index : Nat} {execution : Execution}
    {buffer : Nat} (hexecution : s.execution index = some execution) (hone : execution.staged = 1)
    (hop : s.operation execution = some (.dispatch op))
    (hnote : op.staging[0]? = some (.note (some buffer))) : ¬ s.Writes a buffer := by
  intro hwrites
  have hstaged := h.ops _ op (List.mem_of_getElem? hop)
  rcases hstaged.first hnote with ⟨_, _, _, hcopy⟩ | hzero | ⟨key, home, hkey, hoperand, hsome, hbuffer⟩
  · cases hcopy
  · cases hzero
  · obtain rfl := Option.some.inj (StagingStep.note.inj hbuffer)
    unfold Staged at hstaged
    simp only [hkey] at hstaged
    obtain ⟨fill, hsteps, htarget, hpacking⟩ := (hstaged.staged hoperand).1.steps hsome
    cases hpack : fill.isPack with
    | true =>
      cases fill with
      | pack packing =>
        refine hunrefilled.packing key.buffer hwrites index execution packing hexecution ?_
          (hpacking packing rfl)
        unfold State.nextStep
        rw [hop]
        simp only [hone, Dispatch.staging_eq, hsteps]
        rfl
      | note => cases hpack
      | copy => cases hpack
      | publish => cases hpack
    | false =>
      have hexposed := hunwritten.covered key.buffer hwrites index execution op hexecution
        (by omega) hop (by rw [hkey]; rfl) (by rw [hstaged.weights])
      rw [hone, Dispatch.staging_eq, hsteps] at hexposed
      have hopen : exposed (fill :: .publish ⟨key, key.geometry.scratchLength⟩ home ::
          op.replicaSteps op.replicas) = true :=
        exposed_of_publish (isPublish_of_target htarget) hpack
          fun other hother => not_isPack_of_mem_replicaSteps hother
      exact absurd (hopen.symm.trans hexposed) (by decide)

/-- Operations stay, so an execution in the middle of a dispatch is at the same one after a step. -/
theorem CacheInv.operation_eq (h : CacheInv settings registry seen s base)
    (hops : ∀ i, (s.commandBuffers i).ops <+: (s'.commandBuffers i).ops) {index : Nat}
    {execution : Execution} (hexecution : s.execution index = some execution)
    (hbegun : 0 < execution.staged) (hop : s'.operation execution = some (.dispatch op)) :
    s.operation execution = some (.dispatch op) := by
  obtain ⟨op', hop', -⟩ := h.executions index execution hexecution hbegun
  obtain ⟨more, hmore⟩ := hops execution.commandBuffer
  have hsame : s'.operation execution = s.operation execution := by
    unfold State.operation at *
    rw [← hmore]
    exact List.getElem?_append_left (List.getElem?_eq_some_iff.mp hop').1
  rw [← hsame]
  exact hop

/-- **Steps that neither fill nor publish keep the entries honest.** -/
theorem Honest.keeps (h : Honest seen s) (hinv : CacheInv settings registry seen s base)
    (henabled : settings.enabled) {a : Action} (hunwritten : Unwritten s a)
    (hunrefilled : Unrefilled s a) (hframe : Frame s a s')
    (hgems : ∀ gem < s.nextGem, s'.gems gem = s.gems gem)
    (hcache : ∀ key entry, (key, entry) ∈ s'.cache.entries → (key, entry) ∈ s.cache.entries)
    (hexecutions : ∀ index execution op, s'.execution index = some execution → 0 < execution.staged →
      s'.operation execution = some (.dispatch op) → execution.staged ≤ op.staging.length →
      s.execution index = some execution) : Honest seen s' where
  entries key entry hmem := by
    obtain ⟨home, hmade⟩ := (hinv.entries key entry (hcache key entry hmem)).owned
    exact (h.entries key entry (hcache key entry hmem)).of_gems (hgems _ hmade.allocated)
  publishing index execution op publish gem hexecution hbegun hop hnext := by
    have hold := hexecutions index execution op hexecution hbegun hop
      (List.getElem?_eq_some_iff.mp hnext).1.le
    have hop' := hinv.operation_eq hframe.ops hold hbegun hop
    obtain ⟨⟨-, ⟨home, hmade⟩, -⟩, -⟩ := hinv.publishing henabled hold hbegun hop' hnext
    exact (h.publishing index execution op publish gem hold hbegun hop' hnext).of_gems
      (hgems _ hmade.allocated)
  noted index execution op buffer hexecution hone hop hnote := by
    have hone' : execution.staged ≤ op.staging.length := by
      rw [hone]
      exact (List.getElem?_eq_some_iff.mp hnote).1
    have hold := hexecutions index execution op hexecution (by omega) hop hone'
    have hop' := hinv.operation_eq hframe.ops hold (by omega) hop
    rw [h.noted index execution op buffer hold hone hop' hnote]
    rcases hframe.buffers with hsame | ⟨written, offset, bytes, hwrite, hfits, hbuffers⟩
    · rw [hsame]
    · by_cases hb : buffer = written
      · subst hb
        exact absurd ⟨offset, bytes, hwrite, hfits⟩
          (hinv.noted_unwritten hunwritten hunrefilled hold hone hop' hnote)
      · rw [hbuffers]
        simp [State.writeBuffer, Function.update_of_ne hb]

/-- An execution takes the staging step it is at. -/
structure Stages (settings : Settings) (s s' : State) (index : Nat) (execution : Execution)
    (op : Dispatch) (step : StagingStep) (filled : State) (noted : Nat) : Prop where
  found : s.execution index = some execution
  dispatch : s.operation execution = some (.dispatch op)
  next : op.staging[execution.staged]? = some step
  applied : s.applyStep settings execution.generation step = some (filled, noted)
  after : s' = filled.setExecution index
    (some { execution with staged := execution.staged + 1, generation := noted })

section Stages

variable {index noted : Nat} {execution : Execution} {step : StagingStep} {filled : State}

namespace Stages

theorem nextStep (h : Stages settings s s' index execution op step filled noted) :
    s.nextStep execution = some step := by
  unfold State.nextStep
  rw [h.dispatch]
  exact h.next

theorem buffers (h : Stages settings s s' index execution op step filled noted) :
    s'.buffers = s.buffers := by
  rw [h.after]
  exact (applyStep_frame h.applied).1

theorem operation_eq (h : Stages settings s s' index execution op step filled noted) (e : Execution) :
    s'.operation e = s.operation e := by
  have hcommandBuffers : s'.commandBuffers = s.commandBuffers := by
    rw [h.after]
    exact (applyStep_frame h.applied).2.1
  unfold State.operation
  rw [hcommandBuffers]

/-- The other executions stay. -/
theorem other (h : Stages settings s s' index execution op step filled noted) {other : Nat} {e : Execution}
    (he : s'.execution other = some e) (hne : other ≠ index) : s.execution other = some e := by
  rw [h.after, execution_setExecution, if_neg fun hsame => hne hsame.1, State.execution,
    (applyStep_frame h.applied).2.2] at he
  exact he

theorem own (h : Stages settings s s' index execution op step filled noted) {e : Execution} {op' : Dispatch}
    (he : s'.execution index = some e) (hop : s'.operation e = some (.dispatch op')) :
    e = { execution with staged := execution.staged + 1, generation := noted } ∧ op' = op := by
  rw [h.operation_eq] at hop
  rw [h.after, execution_setExecution,
    if_pos ⟨rfl, (applyStep_frame h.applied).2.2 ▸ lt_of_execution h.found⟩] at he
  obtain rfl := Option.some.inj he
  exact ⟨rfl, RecordedOp.dispatch.inj (Option.some.inj (hop.symm.trans h.dispatch))⟩

/-- What an allocation holds exactly it holds afterwards, if a step that fills it packs the present bytes. -/
theorem holdsAt (h : Stages settings s s' index execution op step filled noted) (hist : History seen s)
    {generation gem : Nat} (hexact : HoldsAt seen s key generation gem)
    (hserved : Served settings registry' seen s' key generation gem)
    (hrefill : step.target = some gem → generation = (s.buffers key.buffer).generation) :
    HoldsAt seen s' key generation gem := by
  rcases applyStep_some h.applied with ⟨_, _, hsame, _⟩ | ⟨other, bytes, htarget, hsame, _⟩ | ⟨_, _, _, hsame⟩
  · exact hexact.of_gems (by rw [h.after, hsame]; rfl)
  · by_cases hgem : gem = other
    · refine hserved.holdsAt (hist.of_buffers h.buffers) ?_
      rw [h.buffers, hrefill (hgem ▸ htarget)]
    · refine hexact.of_gems ?_
      rw [h.after, hsame]
      exact writeGem_gems_of_ne hgem bytes
  · exact hexact.of_gems (by rw [h.after, hsame]; rfl)

/-- An execution notes a generation before it publishes. -/
theorem begun (h : Stages settings s s' index execution op step filled noted)
    (hinv : CacheInv settings registry seen s base) {publish : WeightPublish} {gem : Nat}
    (hstep : step = .publish publish gem) : 0 < execution.staged := by
  rcases Nat.eq_zero_or_pos execution.staged with hzero | hpos
  · have hnext := h.next
    rw [hzero, hstep] at hnext
    rcases (hinv.ops _ op (List.mem_of_getElem? h.dispatch)).first hnext with
      ⟨_, _, _, hcopy⟩ | hnote | ⟨_, _, _, _, _, hnote⟩
    · cases hcopy
    · cases hnote
    · cases hnote
  · exact hpos

end Stages

/-- The entries that a staging step leaves, and the one it makes, are exact. -/
theorem Honest.stage_entries (h : Honest seen s)
    (hstages : Stages settings s s' index execution op step filled noted)
    (hinv : CacheInv settings registry seen s base) (hist : History seen s)
    (hunrefilled : Unrefilled s (.advance index))
    (hinv' : CacheInv settings registry' seen s' base') {key : Key} {entry : Entry}
    (hmem : (key, entry) ∈ s'.cache.entries) : HoldsAt seen s' key entry.generation entry.buffer := by
  have hlisted (hmem' : (key, entry) ∈ s.cache.entries) : HoldsAt seen s' key entry.generation entry.buffer :=
    hstages.holdsAt hist (h.entries key entry hmem') (hinv'.entries key entry hmem) fun htarget =>
      hunrefilled.listed index execution step entry.buffer rfl hstages.found hstages.nextStep htarget
        key entry hmem' rfl
  rcases applyStep_some hstages.applied with ⟨_, _, hsame, _⟩ | ⟨_, _, _, hsame, _⟩ | ⟨publish, gem, hstep, hsame⟩
  · rw [hstages.after, hsame] at hmem
    exact hlisted hmem
  · rw [hstages.after, hsame] at hmem
    exact hlisted hmem
  · have hmem' := hmem
    rw [hstages.after, hsame] at hmem'
    rcases Cache.mem_publish hmem' with ⟨-, hmem'⟩ | ⟨-, rfl, rfl⟩ | ⟨-, hmem'⟩
    · exact hlisted hmem'
    · refine (h.publishing index execution op publish gem hstages.found (hstages.begun hinv hstep)
        hstages.dispatch (hstep ▸ hstages.next)).of_gems ?_
      rw [hstages.after, hsame]
      rfl
    · exact hlisted hmem'

/-- What an execution is about to publish is exact: its own has just been packed, or noted, at the present
generation, and another's is filled at the present generation only. -/
theorem Honest.stage_publishing (h : Honest seen s)
    (hstages : Stages settings s s' index execution op step filled noted) (hist : History seen s)
    (henabled : settings.enabled) (hunrefilled : Unrefilled s (.advance index))
    (hinv' : CacheInv settings registry' seen s' base') {other : Nat} {e : Execution} {op' : Dispatch}
    {publish : WeightPublish} {gem : Nat} (he : s'.execution other = some e) (hbegun : 0 < e.staged)
    (hop' : s'.operation e = some (.dispatch op'))
    (hpublish : op'.staging[e.staged]? = some (.publish publish gem)) :
    HoldsAt seen s' publish.key e.generation gem := by
  obtain ⟨hserved, hbefore⟩ := hinv'.publishing henabled he hbegun hop' hpublish
  by_cases hother : other = index
  · subst hother
    obtain ⟨rfl, rfl⟩ := hstages.own he hop'
    refine hserved.holdsAt (hist.of_buffers hstages.buffers) ?_
    rw [hstages.buffers]
    rcases hbefore with hnote | ⟨htwo, hnote, fill, hfill, htarget⟩
    · obtain rfl : step = .note (some publish.key.buffer) :=
        Option.some.inj (hstages.next.symm.trans hnote)
      rcases applyStep_some hstages.applied with ⟨_, hbuffer, _, hnoted⟩ | ⟨_, _, htarget, _⟩ | ⟨_, _, hstep, _⟩
      · exact (hnoted _ (StagingStep.note.inj hbuffer).symm).symm
      · cases htarget
      · cases hstep
    · have hone : execution.staged = 1 := Nat.succ.inj htwo
      have hnext := hstages.next
      rw [hone] at hnext
      obtain rfl : step = fill := Option.some.inj (hnext.symm.trans hfill)
      have hgeneration := h.noted other execution op' _ hstages.found hone hstages.dispatch hnote
      rcases applyStep_some hstages.applied with ⟨_, rfl, _, _⟩ | ⟨_, _, _, _, hnoted⟩ | ⟨_, _, rfl, _⟩
      · cases htarget
      · exact (hnoted.trans hgeneration).symm
      · cases htarget
  · have he' := hstages.other he hother
    rw [hstages.operation_eq] at hop'
    refine hstages.holdsAt hist (h.publishing other e op' publish gem he' hbegun hop' hpublish) hserved
      fun htarget => ?_
    refine hunrefilled.publishing index execution step gem rfl hstages.found hstages.nextStep htarget
      other e publish he' ?_
    unfold State.nextStep
    rw [hop']
    exact hpublish

/-- An execution that has noted a generation before a packing has the present one. -/
theorem Honest.stage_noted (h : Honest seen s)
    (hstages : Stages settings s s' index execution op step filled noted) {other buffer : Nat}
    {e : Execution} {op' : Dispatch} (he : s'.execution other = some e) (hone : e.staged = 1)
    (hop' : s'.operation e = some (.dispatch op')) (hnote : op'.staging[0]? = some (.note (some buffer))) :
    e.generation = (s'.buffers buffer).generation := by
  rw [hstages.buffers]
  by_cases hother : other = index
  · subst hother
    obtain ⟨rfl, rfl⟩ := hstages.own he hop'
    have hzero : execution.staged = 0 := Nat.succ.inj hone
    have hnext := hstages.next
    rw [hzero] at hnext
    obtain rfl : step = .note (some buffer) := Option.some.inj (hnext.symm.trans hnote)
    rcases applyStep_some hstages.applied with ⟨_, hbuffer, _, hnoted⟩ | ⟨_, _, htarget, _⟩ | ⟨_, _, hstep, _⟩
    · exact hnoted _ (StagingStep.note.inj hbuffer).symm
    · cases htarget
    · cases hstep
  · rw [hstages.operation_eq] at hop'
    exact h.noted other e op' buffer (hstages.other he hother) hone hop' hnote

/-- **A staging step keeps the entries honest.** What it fills is used at the present generation only;
what it publishes is exact; and what an execution is about to publish is exact from then on. -/
theorem Honest.stage (h : Honest seen s)
    (hstages : Stages settings s s' index execution op step filled noted)
    (hinv : CacheInv settings registry seen s base) (hist : History seen s) (henabled : settings.enabled)
    (hunrefilled : Unrefilled s (.advance index)) (hinv' : CacheInv settings registry' seen s' base') :
    Honest seen s' where
  entries _ _ hmem := h.stage_entries hstages hinv hist hunrefilled hinv' hmem
  publishing _ _ _ _ _ he hbegun hop hpublish :=
    h.stage_publishing hstages hist henabled hunrefilled hinv' he hbegun hop hpublish
  noted _ _ _ _ he hone hop hnote := h.stage_noted hstages he hone hop hnote

end Stages

/-- A step that fills nothing, publishes nothing and begins nothing. -/
structure LeavesCoefficients (s s' : State) : Prop where
  gems : s'.gems = s.gems
  cache : s'.cache = s.cache
  executions : ∀ index execution, s'.execution index = some execution → 0 < execution.staged →
    s.execution index = some execution

theorem LeavesCoefficients.refl (s : State) : LeavesCoefficients s s :=
  ⟨rfl, rfl, fun _ _ hexecution _ => hexecution⟩

theorem LeavesCoefficients.setExecution {index : Nat} {execution : Option Execution}
    (hnew : ∀ e, execution = some e → e.staged = 0) :
    LeavesCoefficients s (s.setExecution index execution) :=
  ⟨rfl, rfl, setExecution_unbegun hnew⟩

/-- An execution ends. -/
theorem LeavesCoefficients.ended (s : State) (index : Nat) :
    LeavesCoefficients s (s.setExecution index none) :=
  .setExecution fun _ he => nomatch he

theorem LeavesCoefficients.wrote {index : Nat} {execution : Execution} {outcome : Option State}
    (houtcome : ∀ s', outcome = some s' → ∃ buffer offset bytes,
      s.mapWrite buffer offset bytes = some s') :
    LeavesCoefficients s (s.wrote index execution outcome) := by
  cases outcome with
  | none => exact .ended s index
  | some s' =>
    obtain ⟨buffer, offset, bytes, hwrite⟩ := houtcome s' rfl
    obtain ⟨-, rfl⟩ := mapWrite_some hwrite
    refine ⟨rfl, rfl, setExecution_unbegun fun e he => ?_⟩
    rw [← Option.some.inj he]
    rfl

theorem Honest.leaves (h : Honest seen s) (hinv : CacheInv settings registry seen s base)
    (henabled : settings.enabled) {a : Action} (hunwritten : Unwritten s a)
    (hunrefilled : Unrefilled s a) (hleft : LeavesCoefficients s (step settings s a)) :
    Honest seen (step settings s a) :=
  h.keeps hinv henabled hunwritten hunrefilled (step_frame settings s a)
    (fun _ _ => by rw [hleft.gems]) (fun _ _ hmem => hleft.cache ▸ hmem)
    fun index execution _ hexecution hbegun _ _ => hleft.executions index execution hexecution hbegun

theorem Honest.records (h : Honest seen s) (hinv : CacheInv settings registry seen s base)
    (henabled : settings.enabled) {a : Action} (hunwritten : Unwritten s a)
    (hunrefilled : Unrefilled s a) (hrecords : OnlyRecords s (step settings s a)) :
    Honest seen (step settings s a) := by
  refine h.keeps hinv henabled hunwritten hunrefilled (step_frame settings s a) hrecords.gems
    hrecords.entries fun index execution _ hexecution _ _ _ => ?_
  rw [State.execution, hrecords.executions] at hexecution
  exact hexecution

/-- An execution that has nothing left to stage submits. -/
theorem Honest.submits (h : Honest seen s) (hinv : CacheInv settings registry seen s base)
    (henabled : settings.enabled) {index : Nat} (hunwritten : Unwritten s (.advance index))
    (hunrefilled : Unrefilled s (.advance index)) {execution : Execution}
    (hexecution : s.execution index = some execution)
    (hop : s.operation execution = some (.dispatch op)) (hnext : op.staging[execution.staged]? = none) :
    Honest seen (step settings s (.advance index)) := by
  refine h.keeps hinv henabled hunwritten hunrefilled (step_frame settings s _) ?_ ?_ ?_ <;>
    simp only [Driver.step, State.advance, hexecution, hop, hnext]
  · exact fun _ _ => rfl
  · exact fun _ _ hmem => hmem
  · intro other e op' he hbegun hop' hle
    rw [execution_setExecution] at he
    split_ifs at he with hsame
    · obtain rfl := Option.some.inj he
      obtain rfl : op' = op := RecordedOp.dispatch.inj (Option.some.inj (hop'.symm.trans hop))
      exact absurd hle (Nat.not_succ_le_self _)
    · exact he

/-- An execution's next step keeps the entries honest. -/
theorem Honest.advance (h : Honest seen s) (hinv : CacheInv settings registry seen s base)
    (hist : History seen s) (henabled : settings.enabled) {index : Nat}
    (hunwritten : Unwritten s (.advance index)) (hunrefilled : Unrefilled s (.advance index))
    (hinv' : CacheInv settings registry' seen (step settings s (.advance index)) base') :
    Honest seen (step settings s (.advance index)) := by
  have hleft := h.leaves hinv henabled hunwritten hunrefilled
  cases hexecution : s.execution index with
  | none =>
    refine hleft ?_
    simp only [Driver.step, State.advance, hexecution]
    exact .refl s
  | some execution =>
    cases hop : s.operation execution with
    | none =>
      refine hleft ?_
      simp only [Driver.step, State.advance, hexecution, hop]
      exact .ended s index
    | some recorded =>
      cases recorded with
      | transfer op =>
        refine hleft ?_
        simp only [Driver.step, State.advance, hexecution, hop]
        exact .wrote fun s' hs' => ⟨_, _, _, hs'⟩
      | dispatch op =>
        cases hnext : op.staging[execution.staged]? with
        | none => exact h.submits hinv henabled hunwritten hunrefilled hexecution hop hnext
        | some step =>
          cases hstep : s.applyStep settings execution.generation step with
          | some filled =>
            refine h.stage ⟨hexecution, hop, hnext, hstep, ?_⟩ hinv hist henabled hunrefilled hinv'
            simp only [Driver.step, State.advance, hexecution, hop, hnext, hstep]
          | none =>
            refine hleft ?_
            simp only [Driver.step, State.advance, hexecution, hop, hnext, hstep]
            exact .ended s index

/-- **A step keeps the entries honest.** -/
theorem Honest.step (h : Honest seen s) (hinv : CacheInv settings registry seen s base)
    (hist : History seen s) (henabled : settings.enabled) {a : Action} (hunwritten : Unwritten s a)
    (hunrefilled : Unrefilled s a)
    (hinv' : CacheInv settings registry' seen (step settings s a) base') :
    Honest seen (step settings s a) := by
  have hleft := h.leaves hinv henabled hunwritten hunrefilled
  have hrecords := h.records hinv henabled hunwritten hunrefilled
  cases a with
  | record commandBuffer op => exact hrecords (onlyRecords_push s commandBuffer _)
  | dispatch commandBuffer request =>
    exact hrecords (onlyRecords_recordDispatch settings s commandBuffer request)
  | write buffer offset bytes =>
    refine hleft ?_
    simp only [Driver.step]
    cases houtcome : s.mapWrite buffer offset bytes with
    | none => exact .refl s
    | some s' =>
      obtain ⟨-, rfl⟩ := mapWrite_some houtcome
      exact ⟨rfl, rfl, fun _ _ hexecution _ => hexecution⟩
  | execute commandBuffer => exact hleft ⟨rfl, rfl, execution_execute settings s commandBuffer⟩
  | abort index => exact hleft (.ended s index)
  | advance index => exact h.advance hinv hist henabled hunwritten hunrefilled hinv'
  | finish index result =>
    refine hleft ?_
    simp only [Driver.step, State.finish]
    split
    · exact .refl s
    split
    · split_ifs
      · cases result with
        | none => exact .setExecution fun e he => by rw [← Option.some.inj he]; rfl
        | some bytes =>
          refine .wrote fun s' hs' => ?_
          split_ifs at hs'
          exact ⟨_, _, _, hs'⟩
      · exact .refl s
    · exact .refl s

theorem HoldsAt.imp {seen' : Nat → Nat → Bytes → Prop} {generation gem : Nat}
    (h : HoldsAt seen s key generation gem) (hseen : ∀ {b g x}, seen b g x → seen' b g x) :
    HoldsAt seen' s key generation gem := by
  obtain ⟨x, hx, hholds⟩ := h
  exact ⟨x, hseen hx, hholds⟩

theorem Honest.mono {seen' : Nat → Nat → Bytes → Prop} (h : Honest seen s)
    (hseen : ∀ {b g x}, seen b g x → seen' b g x) : Honest seen' s where
  entries key entry hmem := (h.entries key entry hmem).imp hseen
  publishing index execution op publish gem hexecution hbegun hop hnext :=
    (h.publishing index execution op publish gem hexecution hbegun hop hnext).imp hseen
  noted := h.noted

end

end IreeRocket.Driver
