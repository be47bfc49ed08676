import IreeRocket.Driver.CacheInvariant

/-!
# Staging a dispatch step by step

What one staging step of an execution does to the allocations and the cache, wherever the execution
stands (`InFlight.step`). A publishable allocation is only filled with the packing of the binding's
present bytes, so a fill takes nothing from others who use the allocation (`Fill.keeps`), and what is
published was packed at the noted generation or later.
-/

namespace IreeRocket.Driver

open Conv Weights WeightCache

/-- Recording found a packing of the dispatch's weight binding in the cache, on its own context or for
a replica. -/
def Dispatch.servedFromCache (op : Dispatch) : Bool :=
  op.fanout.key.isSome && (op.weightPacking.isNone || op.replicas.any (·.weights.isHit))

section

variable {settings : Settings} {registry : Nat → Allotment} {seen : Nat → Nat → Bytes → Prop}
  {base : Nat → Nat} {s s' s'' : State}

theorem History.of_buffers (h : History seen s) (hbuffers : s'.buffers = s.buffers) :
    History seen s' where
  current b := hbuffers ▸ h.current b
  unique := h.unique
  le hseen := hbuffers ▸ h.le hseen

/-- A packing found in the cache at the binding's generation is the present one. -/
theorem Served.current (hist : History seen s) {key : Key} {generation gem : Nat}
    (h : Served settings registry seen s key generation gem)
    (hgeneration : (s.buffers key.buffer).generation = generation) : Current s key gem := by
  obtain ⟨g, x, hle, hseen, hholds⟩ := h.holds
  have hge := hist.le hseen
  obtain rfl : g = (s.buffers key.buffer).generation := by omega
  obtain rfl := hist.unique hseen (hist.current key.buffer)
  exact hholds

/-! ### Filling an allocation -/

/-- `bytes` may be written over the allocation: a packing of the present bytes, or for a replica that
is not published (or with the cache disabled) the packing in its home; the binding's bytes where it is
for those. -/
structure Fill (settings : Settings) (registry : Nat → Allotment) (s : State) (gem : Nat)
    (bytes : Bytes) : Prop where
  packing : ∀ {key home published}, (registry gem).purpose = .packing key home published →
    bytes.length = key.geometry.scratchLength ∧
      key.geometry.scratchLength ≤ (s.gems gem).length ∧
      (Holds key (s.buffers key.buffer).bytes bytes ∨
        (settings.enabled → published = false) ∧ ∃ source, home = some source ∧
          bytes = (s.gems source).take key.geometry.scratchLength)
  binding : ∀ {ref}, (registry gem).purpose = .binding ref →
    bytes = s.bindingBytes ref.buffer ref.offset ref.length ∧ ref.length ≤ (s.gems gem).length

/-- What a made allocation may be filled with. -/
theorem Made.fill {key : Key} {home : Option Nat} {published : Bool} {gem : Nat} {bytes : Bytes}
    (hmade : Made registry s key home published gem)
    (hsized : ∀ gem < s.nextGem, (s.gems gem).length = (registry gem).size)
    (hlength : bytes.length = key.geometry.scratchLength)
    (hbytes : Holds key (s.buffers key.buffer).bytes bytes ∨
      (settings.enabled → published = false) ∧ ∃ source, home = some source ∧
        bytes = (s.gems source).take key.geometry.scratchLength) :
    Fill settings registry s gem bytes where
  packing hpurpose := by
    obtain ⟨rfl, rfl, rfl⟩ := Purpose.packing.inj (hmade.purpose.symm.trans hpurpose)
    exact ⟨hlength, (hsized gem hmade.allocated).symm ▸ hmade.size, hbytes⟩
  binding hpurpose := nomatch hmade.purpose.symm.trans hpurpose

theorem Direct.fill {ref : BufferRef} {gem : Nat} (hdirect : Direct registry s ref gem)
    (hsized : ∀ gem < s.nextGem, (s.gems gem).length = (registry gem).size) :
    Fill settings registry s gem (s.bindingBytes ref.buffer ref.offset ref.length) where
  packing hpurpose := nomatch hdirect.purpose.symm.trans hpurpose
  binding hpurpose := by
    obtain rfl := Purpose.binding.inj (hdirect.purpose.symm.trans hpurpose)
    exact ⟨rfl, (hsized gem hdirect.allocated).symm ▸ hdirect.size⟩

/-- A packing stays held since then, whether or not the allocation is filled. -/
theorem HoldsSince.writeGem {key : Key} {since gem other : Nat} {bytes : Bytes}
    (h : HoldsSince seen s key since other)
    (hfilled : other = gem → Since seen key.buffer since fun x => Holds key x (store (s.gems gem) 0 bytes)) :
    HoldsSince seen (s.writeGem gem bytes) key since other := by
  by_cases hgem : other = gem
  · subst hgem
    unfold HoldsSince
    rw [writeGem_gems_self]
    exact hfilled rfl
  · unfold HoldsSince
    rw [writeGem_gems_of_ne hgem]
    exact h

/-- **A fill takes nothing from the others who use the allocation.** -/
theorem Fill.keeps (hist : History seen s) {gem : Nat} {bytes : Bytes}
    (h : Fill settings registry s gem bytes) :
    Keeps settings registry registry seen nowhere s (s.writeGem gem bytes) := by
  have hpresent {key : Key} {home : Option Nat}
      (hpurpose : (registry gem).purpose = .packing key home true)
      (hfresh : home = none ∨ settings.enabled) :
      Holds key (s.buffers key.buffer).bytes (store (s.gems gem) 0 bytes) := by
    obtain ⟨hlength, hsize, hholds | ⟨hpublished, source, hhome, -⟩⟩ := h.packing hpurpose
    · exact holds_store hholds hlength hsize
    · rcases hfresh with rfl | henabled
      · cases hhome
      · exact absurd (hpublished henabled) (by decide)
  refine ⟨le_rfl, fun _ _ => rfl, ?_, ?_, ?_, ?_⟩
  · rintro key since other hhome hold
    refine hold.writeGem ?_
    rintro rfl
    obtain ⟨context, hmade | ⟨henabled, home, hmade⟩⟩ := hhome
    · have hnow : Holds { key with context } _ _ := hpresent hmade.purpose (.inl rfl)
      exact hist.since (hold.le hist) hnow
    · have hnow : Holds { key with context } _ _ := hpresent hmade.purpose (.inr henabled)
      exact hist.since (hold.le hist) hnow
  · intro key home published since other hmade _ hsource hold
    refine hold.writeGem ?_
    rintro rfl
    obtain ⟨hlength, hsize, hholds | ⟨-, source, hhome, rfl⟩⟩ := h.packing hmade.purpose
    · exact hist.since (hold.le hist) (holds_store hholds hlength hsize)
    · obtain rfl := Option.some.inj hhome
      exact hsource.imp id fun x hx => holds_store hx.take hlength hsize
  · intro ref since other hdirect hold
    by_cases hgem : other = gem
    · subst hgem
      obtain ⟨rfl, hsize⟩ := h.binding hdirect.purpose
      rw [writeGem_gems_self]
      exact hist.since (hold.le hist)
        (isPrefix_store ((List.length_take_le _ _).trans hsize))
    · rw [writeGem_gems_of_ne hgem]
      exact hold
  · intro henabled key other _ howned hcurrent
    obtain ⟨home, hmade⟩ := howned
    unfold Current
    by_cases hgem : other = gem
    · subst hgem
      rw [writeGem_gems_self]
      exact hpresent hmade.purpose (.inr henabled)
    · rw [writeGem_gems_of_ne hgem]
      exact hcurrent

/-- What a staging step may do: fill allocations and publish. -/
structure Applied (settings : Settings) (registry : Nat → Allotment)
    (seen : Nat → Nat → Bytes → Prop) (base : Nat → Nat) (s s' : State) : Prop where
  inv : CacheInv settings registry seen s' base
  keeps : Keeps settings registry registry seen nowhere s s'
  buffers : s'.buffers = s.buffers
  commandBuffers : s'.commandBuffers = s.commandBuffers
  executions : s'.executions = s.executions

theorem Applied.refl (h : CacheInv settings registry seen s base) :
    Applied settings registry seen base s s where
  inv := h
  keeps := .of_memory rfl rfl fun _ _ => rfl
  buffers := rfl
  commandBuffers := rfl
  executions := rfl

theorem CacheInv.fill (h : CacheInv settings registry seen s base) (hist : History seen s) {gem : Nat}
    {bytes : Bytes} (hfill : Fill settings registry s gem bytes) :
    Applied settings registry seen base s (s.writeGem gem bytes) := by
  have hkeeps := hfill.keeps hist
  refine ⟨h.keeps hkeeps (fun other hother => ?_) (fun _ _ hmem => .inl hmem)
    (fun i => ⟨[], (List.append_nil _).symm, by simp⟩) (fun _ _ hexecution _ => hexecution)
    (fun _ _ op _ _ _ => covered_nowhere op _), hkeeps, rfl, rfl, rfl⟩
  by_cases hgem : other = gem
  · subst hgem
    rw [writeGem_gems_self, length_store]
    exact h.sized other hother
  · rw [writeGem_gems_of_ne hgem]
    exact h.sized other hother

/-- Publishing a packing made at the noted generation or later. -/
theorem CacheInv.publish (h : CacheInv settings registry seen s base) {key : Key}
    {generation gem : Nat} (hserved : settings.enabled →
      Served settings registry seen s key generation gem) (bytes : Nat) :
    Applied settings registry seen base s (s.publish settings ⟨key, bytes⟩ generation gem) := by
  have hkeeps : Keeps settings registry registry seen nowhere s
      (s.publish settings ⟨key, bytes⟩ generation gem) := .of_memory rfl rfl fun _ _ => rfl
  refine ⟨h.keeps hkeeps h.sized (fun other entry hmem => ?_)
    (fun i => ⟨[], (List.append_nil _).symm, by simp⟩) (fun _ _ hexecution _ => hexecution)
    (fun _ _ op _ _ _ => covered_nowhere op _), hkeeps, rfl, rfl, rfl⟩
  rcases Cache.mem_publish hmem with ⟨-, hold⟩ | ⟨henabled, rfl, rfl⟩ | ⟨-, hold⟩
  · exact .inl hold
  · exact .inr ((hserved henabled).keeps hkeeps)
  · exact .inl hold

/-! ### The steps of a cached dispatch -/

theorem exposed_cons {step : StagingStep} {pending : List StagingStep} (hpack : step.isPack = false)
    (h : exposed pending) : exposed (step :: pending) := by
  unfold exposed at *
  simp only [Bool.and_eq_true, Bool.not_eq_true', List.any_cons, hpack, Bool.false_or] at h ⊢
  refine ⟨?_, h.2⟩
  by_cases hpublish : step.isPublish
  · rw [List.dropWhile_cons_of_pos hpublish]
    exact h.1
  · rw [List.dropWhile_cons_of_neg hpublish, List.any_cons, Bool.or_eq_true]
    exact .inr ((List.any_eq_true.mp h.1).elim fun publish hp =>
      List.any_eq_true.mpr ⟨publish, (List.dropWhile_sublist _).subset hp.1, hp.2⟩)

variable {op : Dispatch} {key : Key} {home : Nat}

/-- The steps that fill and publish the dispatch's own allocation, if it has any. -/
theorem HomeStaged.steps (h : HomeStaged settings registry seen s op key home)
    (hne : op.homeSteps ≠ []) : ∃ fill, op.homeSteps =
      [.note (some key.buffer), fill, .publish ⟨key, key.geometry.scratchLength⟩ home] ∧
      fill.target = some home ∧ ∀ packing, fill = .pack packing → packing.weightBuffer = key.buffer := by
  unfold Dispatch.homeSteps at *
  cases h with
  | hit copies packing _ => simp [copies, Dispatch.packingSteps, packing] at hne
  | shared other context copies packing _ _ =>
    exact ⟨.copy (.host other) key.geometry.scratchLength home,
      by simp [copies, Dispatch.packingSteps, packing, StagedCopy.staging], rfl, nofun⟩
  | packs copies packing publish scratch _ =>
    exact ⟨.pack { weightBuffer := key.buffer, weightOffset := key.offset, weightLength := key.length
                   scratch := home, scratchLength := key.geometry.scratchLength, plan := op.plan },
      by simp [copies, Dispatch.packingSteps, packing, publish, scratch], rfl,
      fun packing hpacking => by rw [← StagingStep.pack.inj hpacking]⟩

theorem HomeStaged.weightBuffer (h : HomeStaged settings registry seen s op key home) :
    ∀ packing ∈ op.weightPacking, packing.weightBuffer = key.buffer := by
  cases h with
  | hit _ packing _ => simp [packing]
  | shared _ _ _ packing _ _ => simp [packing]
  | packs _ packing _ _ _ => simp [packing]

/-- The steps of a replica: none where its packing was in the cache, else a copy of the dispatch's own
packing, and its publication. -/
theorem ReplicaStaged.steps {generation : Nat} {replica : Replica}
    (h : ReplicaStaged settings registry seen s generation { key with context := replica.context } home
      replica.weights)
    (hbuffer : ∀ packing ∈ op.weightPacking, packing.weightBuffer = key.buffer) :
    replica.weights.isHit ∧ replica.staging op.weightPacking = [] ∨
    Made registry s { key with context := replica.context } (some home) true replica.weights.gem ∧
      replica.staging op.weightPacking =
        [.copy (.host home) key.geometry.scratchLength replica.weights.gem, .note (some key.buffer),
          .publish ⟨{ key with context := replica.context }, key.geometry.scratchLength⟩
            replica.weights.gem] ∨
    Made registry s { key with context := replica.context } (some home) false replica.weights.gem ∧
      replica.staging op.weightPacking =
        [.copy (.host home) key.geometry.scratchLength replica.weights.gem] := by
  obtain ⟨context, weights⟩ := replica
  simp only at h
  cases h with
  | hit gem served => exact .inl ⟨rfl, rfl⟩
  | published gem made =>
    refine .inr (.inl ⟨made, ?_⟩)
    unfold Replica.staging
    cases hpacking : op.weightPacking with
    | none => rfl
    | some packing => simp [hbuffer packing hpacking, ReplicaWeights.gem]
  | copied gem made => exact .inr (.inr ⟨made, by simp [Replica.staging, ReplicaWeights.gem]⟩)

theorem CachedDispatch.staged (h : CachedDispatch settings registry seen s op key)
    (hoperand : op.operand = .gem home) : HomeStaged settings registry seen s op key home ∧
      ∀ replica ∈ op.replicas, ReplicaStaged settings registry seen s op.fanout.generation
        { key with context := replica.context } home replica.weights := by
  obtain ⟨gem, hgem, hhome, hreplicas⟩ := h.home
  obtain rfl : gem = home := Operand.gem.inj (hgem.symm.trans hoperand)
  exact ⟨hhome, hreplicas⟩

/-- Replicas are copied, never packed. -/
theorem not_isPack_of_mem_replicaSteps {replicas : List Replica} {step : StagingStep}
    (h : step ∈ op.replicaSteps replicas) : step.isPack = false := by
  obtain ⟨replica, -, hstep⟩ := List.mem_flatMap.mp h
  unfold Replica.staging at hstep
  split at hstep
  · rw [List.mem_singleton.mp hstep]
    rfl
  · cases hstep
  · split at hstep <;> simp only [List.mem_cons, List.not_mem_nil, or_false] at hstep
    · rcases hstep with rfl | rfl | rfl <;> rfl
    · rcases hstep with rfl | rfl | rfl <;> rfl
    · rw [hstep]
      rfl

/-- Bytes that are still to be copied and published are exposed. -/
theorem exposed_of_publish {step : StagingStep} {publish : WeightPublish} {gem : Nat}
    {rest : List StagingStep} (hstep : step.isPublish = false) (hpack : step.isPack = false)
    (hrest : ∀ other ∈ rest, other.isPack = false) :
    exposed (step :: .publish publish gem :: rest) = true := by
  unfold exposed
  rw [List.dropWhile_cons_of_neg (by rw [hstep]; decide), Bool.and_eq_true, Bool.not_eq_true',
    List.any_eq_true, List.any_eq_false]
  refine ⟨⟨.publish publish gem, by simp, rfl⟩, fun other hother => ?_⟩
  simp only [List.mem_cons] at hother
  rcases hother with rfl | rfl | hmem
  · simp [hpack]
  · simp [StagingStep.isPack]
  · simp [hrest other hmem]

/-- What the fill of the dispatch's own allocation writes: the present packing. -/
theorem InFlight.home_fill (hop : CachedDispatch settings registry seen s op key)
    (hoperand : op.operand = .gem home)
    (hsized : ∀ gem < s.nextGem, (s.gems gem).length = (registry gem).size) {since generation : Nat}
    (hflight : InFlight settings registry seen s op key home since generation .noted)
    {fill : StagingStep} (hsteps : op.homeSteps =
      [.note (some key.buffer), fill, .publish ⟨key, key.geometry.scratchLength⟩ home])
    {noted : Nat} (hstep : s.applyStep settings generation fill = some (s', noted)) :
    noted = generation ∧ Made registry s key none true home ∧
      ∃ bytes, s' = s.writeGem home bytes ∧ Holds key (s.buffers key.buffer).bytes bytes ∧
        bytes.length = key.geometry.scratchLength := by
  obtain ⟨hhome, -⟩ := hop.staged hoperand
  have hsteps' := hsteps
  unfold Dispatch.homeSteps at hsteps'
  cases hhome with
  | hit copies packing _ => simp [copies, Dispatch.packingSteps, packing] at hsteps'
  | shared other context copies packing made served =>
    simp only [copies, Dispatch.packingSteps, packing, StagedCopy.staging, List.flatMap_cons,
      List.flatMap_nil, List.append_nil, List.cons_append, List.nil_append, List.cons.injEq,
      true_and, and_true] at hsteps'
    subst hsteps'
    have hpresent := hflight.source served.enabled
      (by
        rw [Phase.pending, hsteps]
        exact exposed_of_publish rfl rfl fun step hmem => not_isPack_of_mem_replicaSteps hmem)
      other ⟨key.geometry.scratchLength, home, by rw [hsteps]; simp⟩
    obtain ⟨rfl, rfl⟩ := Prod.mk.inj (Option.some.inj hstep)
    exact ⟨rfl, made, _, rfl, hpresent.holds.take, hpresent.holds.length_take⟩
  | packs copies packing publish scratch made =>
    simp only [copies, Dispatch.packingSteps, packing, publish, scratch, List.flatMap_nil,
      List.cons_append, List.nil_append, List.cons.injEq, true_and, and_true] at hsteps'
    subst hsteps'
    have hlength : ((s.gems home).take key.geometry.scratchLength).length =
        key.geometry.scratchLength := by
      rw [List.length_take, hsized home made.allocated]
      exact Nat.min_eq_left made.size
    simp only [State.applyStep, State.applyWeightPacking, hop.describes.denseBytes_eq,
      Except.toOption, Option.bind_eq_bind, Option.bind_some, Option.map_eq_some_iff,
      Option.bind_eq_some_iff, guard_some, Prod.mk.injEq, Option.some.injEq] at hstep
    obtain ⟨filled, ⟨-, -, packed, hpacked, rfl⟩, rfl, rfl⟩ := hstep
    have hpacking := (hop.describes.packs_iff hlength).mp ⟨packed.1, toOption_some.mp hpacked⟩
    have hcount := length_packing hpacking
    refine ⟨rfl, made, packed.2, rfl, ?_, hcount⟩
    unfold Holds
    rw [← hcount, List.take_length]
    exact hpacking

theorem current_writeGem (hsized : ∀ gem < s.nextGem, (s.gems gem).length = (registry gem).size)
    {gem : Nat} {source : Option Nat} {published : Bool} {bytes : Bytes} (context : Nat)
    (hmade : Made registry s { key with context } source published gem)
    (hholds : Holds key (s.buffers key.buffer).bytes bytes)
    (hlength : bytes.length = key.geometry.scratchLength) :
    Current (s.writeGem gem bytes) key gem := by
  unfold Current
  rw [writeGem_gems_self]
  exact holds_store hholds hlength ((hsized gem hmade.allocated).symm ▸ hmade.size)

/-- The dispatch's own allocation is filled. -/
theorem InFlight.fill (h : CacheInv settings registry seen s base) (hist : History seen s)
    (hop : CachedDispatch settings registry seen s op key) (hoperand : op.operand = .gem home)
    {since generation noted : Nat}
    (hflight : InFlight settings registry seen s op key home since generation .noted)
    {step : StagingStep} {rest : List StagingStep} (hpending : Phase.noted.pending op = step :: rest)
    (hstep : s.applyStep settings generation step = some (s', noted)) :
    Applied settings registry seen base s s' ∧ Phase.filled.pending op = rest ∧
      InFlight settings registry seen s' op key home since noted .filled := by
  obtain ⟨hhome, hreplicas⟩ := hop.staged hoperand
  obtain ⟨fill, hsteps, -⟩ := hhome.steps hflight.placed
  obtain ⟨rfl, rfl⟩ : fill = step ∧ _ = rest := by
    simpa [Phase.pending, hsteps] using hpending
  obtain ⟨rfl, hmade, bytes, rfl, hholds, hlength⟩ :=
    hflight.home_fill hop hoperand h.sized hsteps hstep
  have happlied := h.fill hist (hmade.fill h.sized hlength (.inl hholds))
  have hkept := hflight.keeps hhome hreplicas happlied.keeps fun _ _ hwritten => hwritten
  have hcurrent := current_writeGem h.sized key.context hmade hholds hlength
  have hhist := hist.of_buffers happlied.buffers
  refine ⟨happlied, by simp [Phase.pending, hsteps], ?_⟩
  exact {
    placed := hflight.placed
    begun := hkept.begun
    noted := nofun
    packed := fun _ => hhist.since (hkept.begun.le hhist) hcurrent
    replicas := hkept.replicas
    source := by
      rintro henabled - gem rfl
      exact ⟨⟨key.context, none, hmade.keeps happlied.keeps⟩, hcurrent⟩
    ready := by
      rintro henabled published gem hready
      obtain ⟨rfl, rfl⟩ := Prod.mk.inj (Option.some.inj hready)
      exact ⟨henabled, ⟨none, hmade.keeps happlied.keeps⟩,
        hhist.since ((hkept.noted rfl).le hhist) hcurrent⟩ }

/-- The dispatch's own allocation is published. -/
theorem InFlight.publish_home (h : CacheInv settings registry seen s base)
    (hop : CachedDispatch settings registry seen s op key) (hoperand : op.operand = .gem home)
    {since generation noted : Nat}
    (hflight : InFlight settings registry seen s op key home since generation .filled)
    {step : StagingStep} {rest : List StagingStep} (hpending : Phase.filled.pending op = step :: rest)
    (hstep : s.applyStep settings generation step = some (s', noted)) :
    Applied settings registry seen base s s' ∧ (Phase.between op.replicas).pending op = rest ∧
      InFlight settings registry seen s' op key home since noted (.between op.replicas) := by
  obtain ⟨hhome, hreplicas⟩ := hop.staged hoperand
  obtain ⟨fill, hsteps, -⟩ := hhome.steps hflight.placed
  obtain ⟨rfl, rfl⟩ : StagingStep.publish ⟨key, key.geometry.scratchLength⟩ home = step ∧ _ = rest := by
    simpa [Phase.pending, hsteps] using hpending
  obtain ⟨rfl, rfl⟩ := Prod.mk.inj (Option.some.inj hstep)
  have happlied := h.publish (fun henabled => hflight.ready henabled key home rfl)
    key.geometry.scratchLength
  have hkept := hflight.keeps hhome hreplicas happlied.keeps fun _ _ hwritten => hwritten
  refine ⟨happlied, rfl, ?_⟩
  exact {
    placed := List.suffix_refl _
    begun := hkept.begun
    noted := nofun
    packed := fun _ => hkept.packed nofun
    replicas := hkept.replicas
    source := fun henabled hopen gem hgem => by
      refine hkept.source henabled ?_ gem hgem
      rw [hpending]
      exact exposed_cons rfl hopen
    ready := nofun }

/-- A replica that only reads a cached packing has nothing to do. -/
theorem InFlight.skip {since generation : Nat} {replica : Replica} {rest : List Replica}
    (hflight : InFlight settings registry seen s op key home since generation
      (.between (replica :: rest))) (hhit : replica.weights.isHit)
    (hsteps : replica.staging op.weightPacking = []) :
    InFlight settings registry seen s op key home since generation (.between rest) where
  placed := (List.suffix_cons _ _).trans hflight.placed
  begun := hflight.begun
  noted := nofun
  packed _ := hflight.packed nofun
  replicas other hother hfilled := by
    refine hflight.replicas other hother ?_
    rcases hfilled with hrest | hcached
    · by_cases hsame : other = replica
      · rw [hsame]
        exact .inr hhit
      · exact .inl fun hmem => (List.mem_cons.mp hmem).elim hsame hrest
    · exact .inr hcached
  source henabled hopen gem hgem := by
    refine hflight.source henabled ?_ gem hgem
    rw [show (Phase.between (replica :: rest)).pending op = (Phase.between rest).pending op by
      simp [Phase.pending, Dispatch.replicaSteps, hsteps]]
    exact hopen
  ready := nofun

theorem InFlight.copied_replica {since generation : Nat} {replica : Replica} {rest : List Replica}
    (hflight : InFlight settings registry seen s op key home since generation
      (.between (replica :: rest)))
    (hcopied : HoldsSince seen s key since replica.weights.gem) :
    ∀ other ∈ op.replicas, other ∉ rest ∨ other.weights.isHit →
      HoldsSince seen s key since other.weights.gem := by
  intro other hother hfilled
  by_cases hsame : other = replica
  · rw [hsame]
    exact hcopied
  · refine hflight.replicas other hother (hfilled.imp_left fun hrest hmem => ?_)
    exact (List.mem_cons.mp hmem).elim hsame hrest

/-- A replica is filled with the dispatch's own packing. -/
theorem InFlight.copy_replica (h : CacheInv settings registry seen s base) (hist : History seen s)
    (hop : CachedDispatch settings registry seen s op key) (hoperand : op.operand = .gem home)
    {since generation gem context : Nat} {phase : Phase} {published : Bool}
    (hflight : InFlight settings registry seen s op key home since generation phase)
    (hphase : phase ≠ .noted)
    (hmade : Made registry s { key with context } (some home) published gem)
    (hpresent : settings.enabled → published = true → Present registry s key home)
    (hs' : s' = s.writeGem gem ((s.gems home).take key.geometry.scratchLength)) :
    Applied settings registry seen base s s' ∧
      (settings.enabled → published = true → Present registry s' key gem) ∧
      InFlight settings registry seen s' op key home since generation phase ∧
      HoldsSince seen s' key since gem := by
  subst hs'
  obtain ⟨hhome, hreplicas⟩ := hop.staged hoperand
  obtain ⟨g, x, hle, hx, hholds⟩ := hflight.packed hphase
  have hfill : Fill settings registry s gem ((s.gems home).take key.geometry.scratchLength) := by
    refine hmade.fill h.sized hholds.length_take ?_
    by_cases hopen : settings.enabled ∧ published = true
    · exact .inl (hpresent hopen.1 hopen.2).holds.take
    · refine .inr ⟨fun henabled => ?_, home, rfl, rfl⟩
      exact Bool.eq_false_iff.mpr fun htrue => hopen ⟨henabled, htrue⟩
  have happlied := h.fill hist hfill
  refine ⟨happlied, fun henabled hpublished => ⟨⟨context, some home, ?_⟩, ?_⟩,
    hflight.keeps hhome hreplicas happlied.keeps fun _ _ hwritten => hwritten, g, x, hle, hx, ?_⟩
  · rw [← hpublished]
    exact hmade.keeps happlied.keeps
  · exact current_writeGem h.sized context hmade (hpresent henabled hpublished).holds.take
      hholds.length_take
  · rw [writeGem_gems_self]
    exact holds_store hholds.take hholds.length_take
      ((h.sized gem hmade.allocated).symm ▸ hmade.size)

/-- Between two replicas, the next one that is not cached is filled. -/
theorem InFlight.next_replica (h : CacheInv settings registry seen s base) (hist : History seen s)
    (hop : CachedDispatch settings registry seen s op key) (hoperand : op.operand = .gem home)
    {since generation noted : Nat} {step : StagingStep} {rest : List StagingStep}
    (hstep : s.applyStep settings generation step = some (s', noted)) :
    ∀ {replicas : List Replica},
      InFlight settings registry seen s op key home since generation (.between replicas) →
      (Phase.between replicas).pending op = step :: rest →
      Applied settings registry seen base s s' ∧ ∃ phase : Phase,
        phase.pending op = rest ∧ InFlight settings registry seen s' op key home since noted phase
  | [], _, hpending => nomatch hpending
  | replica :: replicas, hflight, hpending => by
    obtain ⟨hhome, hreplicas⟩ := hop.staged hoperand
    have hcons : (Phase.between (replica :: replicas)).pending op =
        replica.staging op.weightPacking ++ op.replicaSteps replicas := rfl
    rcases (hreplicas replica (hflight.placed.subset List.mem_cons_self)).steps hhome.weightBuffer with
      ⟨hhit, hsteps⟩ | ⟨hmade, hsteps⟩ | ⟨hmade, hsteps⟩
    · rw [hcons, hsteps] at hpending
      exact InFlight.next_replica h hist hop hoperand hstep (hflight.skip hhit hsteps) hpending
    · have hopen : exposed ((Phase.between (replica :: replicas)).pending op) := by
        rw [hcons, hsteps]
        exact exposed_cons rfl
          (exposed_of_publish rfl rfl fun other hother => not_isPack_of_mem_replicaSteps hother)
      rw [hcons, hsteps] at hpending
      obtain ⟨rfl, rfl⟩ := List.cons.inj hpending
      obtain ⟨rfl, rfl⟩ := Prod.mk.inj (Option.some.inj hstep)
      obtain ⟨happlied, hpresent, hkept, hcopied⟩ := hflight.copy_replica h hist hop hoperand nofun
        hmade (fun henabled _ => hflight.source henabled hopen home rfl) rfl
      refine ⟨happlied, .copied replica replicas, by rw [Phase.pending, hsteps]; rfl, {
        placed := ⟨hflight.placed, by rw [hsteps]; rfl⟩
        begun := hkept.begun
        noted := nofun
        packed := fun _ => hkept.packed nofun
        replicas := hkept.copied_replica hcopied
        source := fun henabled _ gem hgem => ?_
        ready := nofun }⟩
      rcases hgem with rfl | rfl
      · exact hkept.source henabled hopen _ rfl
      · exact hpresent henabled rfl
    · rw [hcons, hsteps] at hpending
      obtain ⟨rfl, rfl⟩ := List.cons.inj hpending
      obtain ⟨rfl, rfl⟩ := Prod.mk.inj (Option.some.inj hstep)
      obtain ⟨happlied, -, hkept, hcopied⟩ := hflight.copy_replica h hist hop hoperand nofun hmade
        (fun _ hpublished => nomatch hpublished) rfl
      refine ⟨happlied, .between replicas, rfl, {
        placed := (List.suffix_cons _ _).trans hflight.placed
        begun := hkept.begun
        noted := nofun
        packed := fun _ => hkept.packed nofun
        replicas := hkept.copied_replica hcopied
        source := fun henabled hopen gem hgem => ?_
        ready := nofun }⟩
      refine hkept.source henabled ?_ gem hgem
      rw [hcons, hsteps]
      exact exposed_cons rfl hopen

/-- The generation of a copied replica is noted. -/
theorem InFlight.note_replica (h : CacheInv settings registry seen s base) (hist : History seen s)
    (hop : CachedDispatch settings registry seen s op key) (hoperand : op.operand = .gem home)
    {since generation noted : Nat} {replica : Replica} {replicas : List Replica}
    (hflight : InFlight settings registry seen s op key home since generation
      (.copied replica replicas))
    {step : StagingStep} {rest : List StagingStep}
    (hpending : (Phase.copied replica replicas).pending op = step :: rest)
    (hstep : s.applyStep settings generation step = some (s', noted)) :
    Applied settings registry seen base s s' ∧ (Phase.tagged replica replicas).pending op = rest ∧
      InFlight settings registry seen s' op key home since noted (.tagged replica replicas) := by
  obtain ⟨hhome, hreplicas⟩ := hop.staged hoperand
  obtain ⟨hsuffix, hlength⟩ := hflight.placed
  rcases (hreplicas replica (hsuffix.subset List.mem_cons_self)).steps hhome.weightBuffer with
    ⟨-, hsteps⟩ | ⟨hmade, hsteps⟩ | ⟨-, hsteps⟩
  · simp [hsteps] at hlength
  · have hopen : exposed ((Phase.copied replica replicas).pending op) := by
      rw [Phase.pending, hsteps]
      exact exposed_of_publish rfl rfl fun other hother => not_isPack_of_mem_replicaSteps hother
    have hpending' := hpending
    rw [Phase.pending, hsteps] at hpending'
    obtain ⟨rfl, rfl⟩ := List.cons.inj hpending'
    obtain ⟨rfl, rfl⟩ := Prod.mk.inj (Option.some.inj hstep)
    refine ⟨.refl h, by rw [Phase.pending, hsteps]; rfl, {
      placed := hflight.placed
      begun := hflight.begun
      noted := nofun
      packed := fun _ => hflight.packed nofun
      replicas := hflight.replicas
      source := fun henabled _ gem hgem => hflight.source henabled hopen gem (.inl hgem)
      ready := ?_ }⟩
    rintro henabled published gem hready
    obtain ⟨rfl, rfl⟩ := Prod.mk.inj (Option.some.inj hready)
    have hpresent := hflight.source henabled hopen _ (.inr rfl)
    exact ⟨henabled, ⟨some home, hmade⟩, hist.since le_rfl hpresent.holds⟩
  · simp [hsteps] at hlength

/-- A replica is published. -/
theorem InFlight.publish_replica (h : CacheInv settings registry seen s base)
    (hop : CachedDispatch settings registry seen s op key) (hoperand : op.operand = .gem home)
    {since generation noted : Nat} {replica : Replica} {replicas : List Replica}
    (hflight : InFlight settings registry seen s op key home since generation
      (.tagged replica replicas))
    {step : StagingStep} {rest : List StagingStep}
    (hpending : (Phase.tagged replica replicas).pending op = step :: rest)
    (hstep : s.applyStep settings generation step = some (s', noted)) :
    Applied settings registry seen base s s' ∧ (Phase.between replicas).pending op = rest ∧
      InFlight settings registry seen s' op key home since noted (.between replicas) := by
  obtain ⟨hhome, hreplicas⟩ := hop.staged hoperand
  obtain ⟨hsuffix, hlength⟩ := hflight.placed
  rcases (hreplicas replica (hsuffix.subset List.mem_cons_self)).steps hhome.weightBuffer with
    ⟨-, hsteps⟩ | ⟨hmade, hsteps⟩ | ⟨-, hsteps⟩
  · simp [hsteps] at hlength
  · have hpending' := hpending
    rw [Phase.pending, hsteps] at hpending'
    obtain ⟨rfl, rfl⟩ := List.cons.inj hpending'
    obtain ⟨rfl, rfl⟩ := Prod.mk.inj (Option.some.inj hstep)
    have happlied := h.publish (fun henabled => hflight.ready henabled _ _ rfl)
      key.geometry.scratchLength
    have hkept := hflight.keeps hhome hreplicas happlied.keeps fun _ _ hwritten => hwritten
    refine ⟨happlied, rfl, {
      placed := (List.suffix_cons _ _).trans hsuffix
      begun := hkept.begun
      noted := nofun
      packed := fun _ => hkept.packed nofun
      replicas := hkept.replicas
      source := fun henabled hopen gem hgem => ?_
      ready := nofun }⟩
    refine hkept.source henabled ?_ gem hgem
    rw [hpending]
    exact exposed_cons rfl hopen
  · simp [hsteps] at hlength

/-- **A staging step of a dispatch that has begun**, wherever the execution stands. -/
theorem InFlight.step (h : CacheInv settings registry seen s base) (hist : History seen s)
    (hop : CachedDispatch settings registry seen s op key) (hoperand : op.operand = .gem home)
    {since generation noted : Nat} {phase : Phase}
    (hflight : InFlight settings registry seen s op key home since generation phase)
    {step : StagingStep} {rest : List StagingStep} (hpending : phase.pending op = step :: rest)
    (hstep : s.applyStep settings generation step = some (s', noted)) :
    Applied settings registry seen base s s' ∧ ∃ phase' : Phase,
      phase'.pending op = rest ∧ InFlight settings registry seen s' op key home since noted phase' := by
  cases phase with
  | noted =>
    obtain ⟨happlied, hnext⟩ := hflight.fill h hist hop hoperand hpending hstep
    exact ⟨happlied, _, hnext⟩
  | filled =>
    obtain ⟨happlied, hnext⟩ := hflight.publish_home h hop hoperand hpending hstep
    exact ⟨happlied, _, hnext⟩
  | between replicas => exact hflight.next_replica h hist hop hoperand hstep hpending
  | copied replica replicas =>
    obtain ⟨happlied, hnext⟩ := hflight.note_replica h hist hop hoperand hpending hstep
    exact ⟨happlied, _, hnext⟩
  | tagged replica replicas =>
    obtain ⟨happlied, hnext⟩ := hflight.publish_replica h hop hoperand hpending hstep
    exact ⟨happlied, _, hnext⟩

/-- With nothing left to stage, everything the dispatch reads is filled. -/
theorem InFlight.done (hop : CachedDispatch settings registry seen s op key)
    (hoperand : op.operand = .gem home) {since generation : Nat} {phase : Phase}
    (hflight : InFlight settings registry seen s op key home since generation phase)
    (hpending : phase.pending op = []) : HoldsSince seen s key since home ∧
      ∀ replica ∈ op.replicas, HoldsSince seen s key since replica.weights.gem := by
  obtain ⟨hhome, hreplicas⟩ := hop.staged hoperand
  cases phase with
  | noted =>
    obtain ⟨fill, hsteps, -⟩ := hhome.steps hflight.placed
    simp [Phase.pending, hsteps] at hpending
  | filled =>
    obtain ⟨fill, hsteps, -⟩ := hhome.steps hflight.placed
    simp [Phase.pending, hsteps] at hpending
  | between rest =>
    refine ⟨hflight.packed nofun, fun replica hmem => hflight.replicas replica hmem ?_⟩
    refine or_iff_not_imp_left.mpr fun hrest => ?_
    have hnone := List.flatMap_eq_nil_iff.mp hpending replica (not_not.mp hrest)
    rcases (hreplicas replica hmem).steps hhome.weightBuffer with
      ⟨hhit, -⟩ | ⟨-, hsteps⟩ | ⟨-, hsteps⟩
    · exact hhit
    · simp [hsteps] at hnone
    · simp [hsteps] at hnone
  | copied replica rest =>
    have hlength := congrArg List.length (List.append_eq_nil_iff.mp hpending).1
    rw [List.length_drop, hflight.placed.2] at hlength
    cases hlength
  | tagged replica rest =>
    have hlength := congrArg List.length (List.append_eq_nil_iff.mp hpending).1
    rw [List.length_drop, hflight.placed.2] at hlength
    cases hlength

theorem Dispatch.staging_eq (op : Dispatch) :
    op.staging = op.homeSteps ++ op.replicaSteps op.replicas := rfl

/-- A replica found in the cache makes the dispatch one that is served from it. -/
theorem servedFromCache_of_isHit (hkey : op.fanout.key = some key) {replica : Replica}
    (hmem : replica ∈ op.replicas) (hhit : replica.weights.isHit) : op.servedFromCache := by
  simp only [Dispatch.servedFromCache, hkey, Option.isSome_some, Bool.true_and, Bool.or_eq_true,
    List.any_eq_true]
  exact .inr ⟨replica, hmem, hhit⟩

/-- **The first step of a dispatch** whose cached packings are present: it has nothing to do for its
own coefficients, or it notes the generation. -/
theorem CachedDispatch.begin (hist : History seen s)
    (hop : CachedDispatch settings registry seen s op key) (hoperand : op.operand = .gem home)
    (hkey : op.fanout.key = some key)
    (hunwritten : op.servedFromCache → (s.buffers key.buffer).generation = op.fanout.generation) :
    (op.homeSteps = [] ∧ ∀ generation, InFlight settings registry seen s op key home
      (s.buffers key.buffer).generation generation (.between op.replicas)) ∨
    op.homeSteps = .note (some key.buffer) :: op.homeSteps.drop 1 ∧
      InFlight settings registry seen s op key home (s.buffers key.buffer).generation
        (s.buffers key.buffer).generation .noted := by
  obtain ⟨hhome, hreplicas⟩ := hop.staged hoperand
  have hnow : Since seen key.buffer (s.buffers key.buffer).generation fun _ => True :=
    hist.since le_rfl trivial
  have hcached {context gem : Nat} (hserved : op.servedFromCache)
      (hfound : Served settings registry seen s { key with context } op.fanout.generation gem) :
      Present registry s key gem :=
    ⟨⟨context, hfound.owned⟩, hfound.current hist (hunwritten hserved)⟩
  have hhits : ∀ replica ∈ op.replicas, replica.weights.isHit →
      HoldsSince seen s key (s.buffers key.buffer).generation replica.weights.gem := by
    intro replica hmem hhit
    have hstaged := hreplicas replica hmem
    have hserved := servedFromCache_of_isHit hkey hmem hhit
    generalize replica.weights = weights at hstaged hhit
    cases hstaged with
    | hit gem served => exact hist.since le_rfl (hcached hserved served).holds
    | published => cases hhit
    | copied => cases hhit
  -- a dispatch with steps of its own notes the generation first; only its source is to be shown
  have hnoted (hplaced : Phase.noted.Placed op)
      (hsource : ∀ gem, Phase.noted.Relies op home gem → Present registry s key gem) :
      InFlight settings registry seen s op key home (s.buffers key.buffer).generation
        (s.buffers key.buffer).generation .noted := {
    placed := hplaced
    begun := hnow
    noted := fun _ => hnow
    packed := fun hphase => absurd rfl hphase
    replicas := fun replica hmem hfilled => hhits replica hmem (hfilled.resolve_left (not_not.mpr hmem))
    source := fun _ _ => hsource
    ready := nofun }
  cases hhome with
  | hit copies packing served =>
    have hserved : op.servedFromCache := by simp [Dispatch.servedFromCache, hkey, packing]
    have hpresent : Present registry s key home := hcached hserved served
    refine .inl ⟨by simp [Dispatch.homeSteps, copies, Dispatch.packingSteps, packing],
      fun generation => {
        placed := List.suffix_refl _
        begun := hnow
        noted := nofun
        packed := fun _ => hist.since le_rfl hpresent.holds
        replicas := fun replica hmem hfilled => hhits replica hmem (hfilled.resolve_left (not_not.mpr hmem))
        source := by
          rintro - - gem rfl
          exact hpresent
        ready := nofun }⟩
  | shared other context copies packing made served =>
    have hserved : op.servedFromCache := by simp [Dispatch.servedFromCache, hkey, packing]
    have hsteps : op.homeSteps = [.note (some key.buffer),
        .copy (.host other) key.geometry.scratchLength home,
        .publish ⟨key, key.geometry.scratchLength⟩ home] := by
      simp [Dispatch.homeSteps, copies, Dispatch.packingSteps, packing, StagedCopy.staging]
    refine .inr ⟨by rw [hsteps]; rfl, hnoted (by simp [Phase.Placed, hsteps]) ?_⟩
    rintro gem ⟨length, target, hcopy⟩
    simp only [hsteps, List.mem_cons, reduceCtorEq, StagingStep.copy.injEq, ReplicaSource.host.injEq,
      List.not_mem_nil, or_false, false_or] at hcopy
    rw [hcopy.1]
    exact hcached hserved served
  | packs copies packing publish scratch made =>
    have hsteps : op.homeSteps = [.note (some key.buffer), .pack
        { weightBuffer := key.buffer, weightOffset := key.offset, weightLength := key.length
          scratch := home, scratchLength := key.geometry.scratchLength, plan := op.plan },
        .publish ⟨key, key.geometry.scratchLength⟩ home] := by
      simp [Dispatch.homeSteps, copies, Dispatch.packingSteps, packing, publish, scratch]
    refine .inr ⟨by rw [hsteps]; rfl, hnoted (by simp [Phase.Placed, hsteps]) ?_⟩
    rintro gem ⟨length, target, hcopy⟩
    simp [hsteps] at hcopy

/-! ### The steps of a dispatch packed at compile time -/

theorem DirectDispatch.step_of_mem (hop : DirectDispatch registry s op) {step : StagingStep}
    (h : step ∈ op.staging) : step = .note none ∨ ∃ gem, Direct registry s op.weights gem ∧
      step = .copy (.binding op.weights.buffer op.weights.offset) op.weights.length gem := by
  rw [Dispatch.staging_eq] at h
  rcases List.mem_append.mp h with hhome | hreplica
  · unfold Dispatch.homeSteps Dispatch.packingSteps at hhome
    rcases hop.home with ⟨-, hcopies⟩ | ⟨gem, -, hdirect, hcopies⟩
    · simp [hcopies, hop.packing] at hhome
    · simp only [hcopies, hop.packing, StagedCopy.staging, List.flatMap_cons, List.flatMap_nil,
        List.append_nil, List.mem_cons, List.not_mem_nil, or_false] at hhome
      exact hhome.imp_right fun hcopy => ⟨gem, hdirect, hcopy⟩
  · obtain ⟨replica, hmem, hstep⟩ := List.mem_flatMap.mp hreplica
    obtain ⟨gem, hdirect, hweights⟩ := hop.replicas replica hmem
    unfold Replica.staging at hstep
    rw [hweights] at hstep
    exact .inr ⟨gem, hdirect, List.mem_singleton.mp hstep⟩

/-- Every allocation the dispatch reads is filled by a step of it. -/
theorem DirectDispatch.filled_of_mem (hop : DirectDispatch registry s op) {gem : Nat}
    (h : gem ∈ op.gems) : ∃ step ∈ op.staging, step.target = some gem := by
  rw [Dispatch.staging_eq]
  unfold Dispatch.gems at h
  rcases List.mem_append.mp h with hhome | hreplica
  · rcases hop.home with ⟨hoperand, -⟩ | ⟨gem', hoperand, -, hcopies⟩ <;> rw [hoperand] at hhome
    · cases hhome
    · refine ⟨.copy (.binding op.weights.buffer op.weights.offset) op.weights.length gem',
        List.mem_append_left _ ?_, by rw [List.mem_singleton.mp hhome]; rfl⟩
      simp [Dispatch.homeSteps, hcopies, StagedCopy.staging]
  · obtain ⟨replica, hmem, rfl⟩ := List.mem_map.mp hreplica
    obtain ⟨gem', hdirect, hweights⟩ := hop.replicas replica hmem
    refine ⟨.copy (.binding op.weights.buffer op.weights.offset) op.weights.length gem',
      List.mem_append_right _ (List.mem_flatMap.mpr ⟨replica, hmem, ?_⟩), by rw [hweights]; rfl⟩
    simp [Replica.staging, hweights]

theorem DirectDispatch.begin (hist : History seen s) (hop : DirectDispatch registry s op) :
    DirectInFlight seen s op (s.buffers op.weights.buffer).generation op.staging where
  begun := hist.since le_rfl trivial
  copied gem hgem hfilled := by
    obtain ⟨step, hmem, htarget⟩ := hop.filled_of_mem hgem
    exact absurd htarget (hfilled step hmem)

/-- A staging step of a dispatch packed at compile time. -/
theorem DirectInFlight.step (h : CacheInv settings registry seen s base) (hist : History seen s)
    (hop : DirectDispatch registry s op) {since generation noted : Nat} {step : StagingStep}
    {rest : List StagingStep} (hmem : step ∈ op.staging)
    (hflight : DirectInFlight seen s op since (step :: rest))
    (hstep : s.applyStep settings generation step = some (s', noted)) :
    Applied settings registry seen base s s' ∧ DirectInFlight seen s' op since rest := by
  rcases hop.step_of_mem hmem with rfl | ⟨gem, hdirect, rfl⟩
  · obtain ⟨rfl, rfl⟩ := Prod.mk.inj (Option.some.inj hstep)
    refine ⟨.refl h, hflight.begun, fun gem hgem hfilled => hflight.copied gem hgem fun step hstep => ?_⟩
    rcases List.mem_cons.mp hstep with rfl | hrest
    · exact nofun
    · exact hfilled step hrest
  · obtain ⟨rfl, rfl⟩ := Prod.mk.inj (Option.some.inj hstep)
    have hfill : Fill settings registry s gem _ := hdirect.fill h.sized
    have happlied := h.fill hist hfill
    refine ⟨happlied, hflight.begun, fun other hother hfilled => ?_⟩
    by_cases hgem : other = gem
    · subst hgem
      refine hist.since (hflight.begun.le hist) ?_
      rw [State.replicaSource, writeGem_gems_self]
      exact isPrefix_store ((List.length_take_le _ _).trans (hfill.binding hdirect.purpose).2)
    · refine (hflight.keeps hop happlied.keeps).copied other hother fun step hstep => ?_
      rcases List.mem_cons.mp hstep with rfl | hrest
      · exact fun htarget => hgem (Option.some.inj htarget).symm
      · exact hfilled step hrest

/-! ### A staging step of an execution -/

theorem UnderWay.step (h : CacheInv settings registry seen s base) (hist : History seen s)
    (hop : Staged settings registry seen s op) {since noted : Nat} {execution : Execution}
    (hunderway : UnderWay settings registry seen s op since execution) {step : StagingStep}
    (hnext : op.staging[execution.staged]? = some step)
    (hstep : s.applyStep settings execution.generation step = some (s', noted)) :
    Applied settings registry seen base s s' ∧ UnderWay settings registry seen s' op since
      { execution with staged := execution.staged + 1, generation := noted } := by
  obtain ⟨hlt, rfl⟩ := List.getElem?_eq_some_iff.mp hnext
  have hdrop := List.drop_eq_getElem_cons hlt
  unfold UnderWay at *
  unfold Staged at hop
  split at hop
  next key hkey =>
    simp only [hkey] at hunderway
    obtain ⟨home, phase, hoperand, hpending, hflight⟩ := hunderway
    rw [hdrop] at hpending
    obtain ⟨happlied, phase', hrest, hnext⟩ :=
      hflight.step h hist hop hoperand hpending.symm hstep
    exact ⟨happlied, home, phase', hoperand, hrest.symm, hnext⟩
  next hkey =>
    simp only [hkey] at hunderway
    rw [hdrop] at hunderway
    exact hunderway.step h hist hop (List.getElem_mem hlt) hstep

/-- The first step of a dispatch. -/
theorem Staged.begin (h : CacheInv settings registry seen s base) (hist : History seen s)
    (hop : Staged settings registry seen s op) (hunwritten : op.servedFromCache →
      (s.buffers op.weights.buffer).generation = op.fanout.generation) {execution : Execution}
    {noted : Nat} {step : StagingStep} (hnext : op.staging[0]? = some step)
    (hstep : s.applyStep settings execution.generation step = some (s', noted)) :
    Applied settings registry seen base s s' ∧ UnderWay settings registry seen s' op
      (s.buffers op.weights.buffer).generation
      { execution with staged := 1, generation := noted } := by
  obtain ⟨rest, hstaging⟩ : ∃ rest, op.staging = step :: rest := by
    cases hsteps : op.staging with
    | nil => rw [hsteps] at hnext; cases hnext
    | cons first rest => rw [hsteps] at hnext; exact ⟨rest, by rw [Option.some.inj hnext]⟩
  unfold UnderWay
  simp only [hstaging, List.drop_succ_cons, List.drop_zero]
  unfold Staged at hop
  split at hop
  next key hkey =>
    have hbuffer : op.weights.buffer = key.buffer := by rw [hop.weights]
    obtain ⟨home, hoperand, -⟩ := hop.home
    rw [hbuffer] at hunwritten ⊢
    rcases hop.begin hist hoperand hkey hunwritten with ⟨hnone, hflight⟩ | ⟨hsome, hflight⟩
    · rw [Dispatch.staging_eq, hnone] at hstaging
      obtain ⟨happlied, phase, hrest, hnext⟩ :=
        (hflight execution.generation).step h hist hop hoperand hstaging hstep
      exact ⟨happlied, home, phase, hoperand, hrest.symm, hnext⟩
    · rw [Dispatch.staging_eq, hsome, List.cons_append] at hstaging
      obtain ⟨rfl, rfl⟩ := List.cons.inj hstaging
      obtain ⟨rfl, rfl⟩ := Prod.mk.inj (Option.some.inj hstep)
      exact ⟨.refl h, home, .noted, hoperand, rfl, hflight⟩
  next hkey =>
    have hflight := hop.begin hist
    rw [hstaging] at hflight
    exact hflight.step h hist hop (by rw [hstaging]; exact List.mem_cons_self) hstep

/-- A dispatch that has nothing to stage. -/
theorem Staged.begin_nothing (hist : History seen s) (hop : Staged settings registry seen s op)
    (hunwritten : op.servedFromCache →
      (s.buffers op.weights.buffer).generation = op.fanout.generation) (hnone : op.staging = [])
    (execution : Execution) :
    UnderWay settings registry seen s op (s.buffers op.weights.buffer).generation execution := by
  unfold UnderWay
  rw [hnone, List.drop_nil]
  unfold Staged at hop
  split at hop
  next key hkey =>
    have hbuffer : op.weights.buffer = key.buffer := by rw [hop.weights]
    obtain ⟨home, hoperand, -⟩ := hop.home
    rw [hbuffer] at hunwritten ⊢
    rcases hop.begin hist hoperand hkey hunwritten with ⟨hhome, hflight⟩ | ⟨hsome, -⟩
    · rw [Dispatch.staging_eq, hhome] at hnone
      exact ⟨home, .between op.replicas, hoperand, hnone.symm, hflight execution.generation⟩
    · rw [Dispatch.staging_eq, hsome] at hnone
      cases hnone
  next hkey =>
    have hflight := hop.begin hist
    rwa [hnone] at hflight

end

end IreeRocket.Driver
