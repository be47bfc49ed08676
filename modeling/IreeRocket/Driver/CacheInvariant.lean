import IreeRocket.Driver.Staging
import IreeRocket.Lib.Runs

/-!
# The invariant of the weight cache

`CacheInv` is what every step keeps as long as cached packings are only used while their binding is
unwritten, and publications are not cut by a write: an entry, and every packing a recorded dispatch
found in the cache, holds the packing of bytes its binding has held since. It is relative to a history
`seen` of the bytes each buffer held at each generation, to a registry of what each GEM allocation was
made for, and to the generation `base` at which each execution began the dispatch it is at.

An execution in the middle of a dispatch is described by its `Phase`, the place it has reached in the
staging, and by what it relies on there (`InFlight`). Everything else that happens meanwhile is a
change that `Keeps` those facts.
-/

namespace IreeRocket.Driver

open Conv Weights WeightCache

/-- What an allocation was made for: the packing under a key, which for a replica is copied from
`home` and which may be published, or the bytes of a binding. -/
inductive Purpose
  | packing (key : Key) (home : Option Nat) (published : Bool)
  | binding (ref : BufferRef)

structure Allotment where
  size : Nat
  purpose : Purpose

/-- `content` starts with the packing, under `key`, of a buffer that holds `bytes`. -/
def Holds (key : Key) (bytes content : Bytes) : Prop :=
  packing key.geometry (load bytes key.offset (denseBytes key.geometry)) =
    some (content.take key.geometry.scratchLength)

/-- `content` starts with what the binding names of a buffer that holds `bytes`. -/
def Copies (ref : BufferRef) (bytes content : Bytes) : Prop :=
  load bytes ref.offset ref.length <+: content

/-- A history of a state: the bytes each buffer held at each generation, one value a generation, up to
the present. -/
structure History (seen : Nat → Nat → Bytes → Prop) (s : State) : Prop where
  current : ∀ b, seen b (s.buffers b).generation (s.buffers b).bytes
  unique : ∀ {b g x y}, seen b g x → seen b g y → x = y
  le : ∀ {b g x}, seen b g x → g ≤ (s.buffers b).generation

/-- The buffer has held bytes that satisfy `P` at `since` or later. -/
def Since (seen : Nat → Nat → Bytes → Prop) (b since : Nat) (P : Bytes → Prop) : Prop :=
  ∃ g x, since ≤ g ∧ seen b g x ∧ P x

theorem Since.le {seen : Nat → Nat → Bytes → Prop} {s : State} (hist : History seen s)
    {b since : Nat} {P : Bytes → Prop} (h : Since seen b since P) :
    since ≤ (s.buffers b).generation := by
  obtain ⟨g, x, hle, hseen, -⟩ := h
  exact hle.trans (hist.le hseen)

theorem Since.imp {seen seen' : Nat → Nat → Bytes → Prop} {b since : Nat} {P Q : Bytes → Prop}
    (h : Since seen b since P) (hseen : ∀ {b g x}, seen b g x → seen' b g x) (hP : ∀ x, P x → Q x) :
    Since seen' b since Q := by
  obtain ⟨g, x, hle, hx, hp⟩ := h
  exact ⟨g, x, hle, hseen hx, hP x hp⟩

/-- What holds of the present bytes has held since then. -/
theorem History.since {seen : Nat → Nat → Bytes → Prop} {s : State} (hist : History seen s)
    {b since : Nat} {P : Bytes → Prop} (hle : since ≤ (s.buffers b).generation)
    (hP : P (s.buffers b).bytes) : Since seen b since P :=
  ⟨_, _, hle, hist.current b, hP⟩

/-! ### Staged operations -/

section

variable (settings : Settings) (registry : Nat → Allotment) (seen : Nat → Nat → Bytes → Prop)
  (s : State)

/-- The allocation was made for the packing under `key`, and is large enough for it. -/
structure Made (key : Key) (home : Option Nat) (published : Bool) (gem : Nat) : Prop where
  allocated : gem < s.nextGem
  purpose : (registry gem).purpose = .packing key home published
  size : key.geometry.scratchLength ≤ (registry gem).size

/-- The allocation may be published under `key`. -/
def Owned (key : Key) (gem : Nat) : Prop := ∃ home, Made registry s key home true gem

/-- The allocation was made for a copy of the binding. -/
structure Direct (ref : BufferRef) (gem : Nat) : Prop where
  allocated : gem < s.nextGem
  purpose : (registry gem).purpose = .binding ref
  size : ref.length ≤ (registry gem).size

/-- The allocation holds the packing of bytes the binding has held at `since` or later. -/
def HoldsSince (key : Key) (since gem : Nat) : Prop :=
  Since seen key.buffer since fun x => Holds key x (s.gems gem)

/-- The allocation holds the packing of the binding's present bytes. -/
def Current (key : Key) (gem : Nat) : Prop :=
  Holds key (s.buffers key.buffer).bytes (s.gems gem)

/-- A cached packing found at `generation`: it holds the packing of bytes seen then or later. -/
structure Served (key : Key) (generation gem : Nat) : Prop where
  enabled : settings.enabled
  owned : Owned registry s key gem
  holds : HoldsSince seen s key generation gem

/-- How recording staged the coefficients of a dispatch on its own context. -/
inductive HomeStaged (op : Dispatch) (key : Key) : Nat → Prop
  | hit (gem : Nat) (copies : op.stagedCopies = []) (packing : op.weightPacking = none)
      (served : Served settings registry seen s key op.fanout.generation gem) : HomeStaged op key gem
  | shared (gem other context : Nat)
      (copies : op.stagedCopies =
        [{ source := .shared other key.buffer, length := key.geometry.scratchLength, scratch := gem
           publish := some (⟨key, key.geometry.scratchLength⟩, gem) }])
      (packing : op.weightPacking = none) (made : Made registry s key none true gem)
      (served : Served settings registry seen s { key with context } op.fanout.generation other) :
      HomeStaged op key gem
  | packs (gem : Nat) (copies : op.stagedCopies = [])
      (packing : op.weightPacking = some
        { weightBuffer := key.buffer, weightOffset := key.offset, weightLength := key.length
          scratch := gem, scratchLength := key.geometry.scratchLength, plan := op.plan })
      (publish : op.weightPublish = some ⟨key, key.geometry.scratchLength⟩)
      (scratch : op.weightScratch = some gem) (made : Made registry s key none true gem) :
      HomeStaged op key gem

/-- How recording staged the coefficients of one replica; `home` is the packing it copies. -/
inductive ReplicaStaged (generation : Nat) (key : Key) (home : Nat) : ReplicaWeights → Prop
  | hit (gem : Nat) (served : Served settings registry seen s key generation gem) :
      ReplicaStaged generation key home (.packed gem none)
  | published (gem : Nat) (made : Made registry s key (some home) true gem) :
      ReplicaStaged generation key home (.packed gem (some (.host home,
        key.geometry.scratchLength, some ⟨key, key.geometry.scratchLength⟩)))
  | copied (gem : Nat) (made : Made registry s key (some home) false gem) :
      ReplicaStaged generation key home (.packed gem (some (.host home,
        key.geometry.scratchLength, none)))

/-- A recorded dispatch whose coefficients go through the cache under `key`. -/
structure CachedDispatch (op : Dispatch) (key : Key) : Prop where
  weights : op.weights = ⟨key.buffer, key.offset, key.length⟩
  length : op.fanout.length = key.geometry.scratchLength
  describes : Describes key.geometry op.plan
  home : ∃ gem, op.operand = .gem gem ∧ HomeStaged settings registry seen s op key gem ∧
    ∀ replica ∈ op.replicas,
      ReplicaStaged settings registry seen s op.fanout.generation { key with context := replica.context } gem
        replica.weights

/-- A recorded dispatch whose coefficients were packed at compile time. -/
structure DirectDispatch (op : Dispatch) : Prop where
  length : op.fanout.length = op.weights.length
  packing : op.weightPacking = none
  home : (op.operand = .binding op.weights ∧ op.stagedCopies = []) ∨
    ∃ gem, op.operand = .gem gem ∧ Direct registry s op.weights gem ∧
      op.stagedCopies =
        [{ source := .binding op.weights.buffer op.weights.offset, length := op.weights.length
           scratch := gem, publish := none }]
  replicas : ∀ replica ∈ op.replicas, ∃ gem, Direct registry s op.weights gem ∧
    replica.weights =
      .direct gem (.binding op.weights.buffer op.weights.offset) op.weights.length

/-- A recorded dispatch as `recordDispatch` leaves it. -/
def Staged (op : Dispatch) : Prop :=
  match op.fanout.key with
  | some key => CachedDispatch settings registry seen s op key
  | none => DirectDispatch registry s op

end

/-! ### Dispatches under way -/

/-- The replica reads a packing that was already in the cache. -/
def ReplicaWeights.isHit : ReplicaWeights → Bool
  | packed _ none => true
  | _ => false

def ReplicaWeights.gem : ReplicaWeights → Nat
  | direct buffer _ _ => buffer
  | packed buffer _ => buffer

def StagingStep.isPublish : StagingStep → Bool
  | publish _ _ => true
  | _ => false

def StagingStep.isPack : StagingStep → Bool
  | pack _ => true
  | _ => false

/-- The allocation a step fills. -/
def StagingStep.target : StagingStep → Option Nat
  | copy _ _ gem => some gem
  | pack packing => some packing.scratch
  | _ => none

/-- A publication is still ahead whose bytes and generation are not both fixed, and no packing that
would renew its bytes. -/
def exposed (pending : List StagingStep) : Bool :=
  (pending.dropWhile (·.isPublish)).any (·.isPublish) && !pending.any (·.isPack)

/-- The staging of a dispatch's own coefficients. -/
def Dispatch.homeSteps (op : Dispatch) : List StagingStep :=
  op.stagedCopies.flatMap StagedCopy.staging ++ op.packingSteps

def Dispatch.replicaSteps (op : Dispatch) (replicas : List Replica) : List StagingStep :=
  replicas.flatMap (Replica.staging op.weightPacking)

/-- Where an execution stands in the staging of a dispatch: what it does next, and for which
replicas it has all still to do. -/
inductive Phase
  /-- The generation is noted; the dispatch's own allocation is filled next. -/
  | noted
  /-- It is filled and is published next. -/
  | filled
  | between (rest : List Replica)
  /-- The replica is filled; the generation is noted next. -/
  | copied (replica : Replica) (rest : List Replica)
  | tagged (replica : Replica) (rest : List Replica)

namespace Phase

def pending (op : Dispatch) : Phase → List StagingStep
  | noted => op.homeSteps.drop 1 ++ op.replicaSteps op.replicas
  | filled => op.homeSteps.drop 2 ++ op.replicaSteps op.replicas
  | between rest => op.replicaSteps rest
  | copied replica rest => (replica.staging op.weightPacking).drop 1 ++ op.replicaSteps rest
  | tagged replica rest => (replica.staging op.weightPacking).drop 2 ++ op.replicaSteps rest

/-- The replicas that are still to be filled. -/
def rest (op : Dispatch) : Phase → List Replica
  | noted | filled => op.replicas
  | between rest | copied _ rest | tagged _ rest => rest

end Phase

section

variable (settings : Settings) (registry : Nat → Allotment) (seen : Nat → Nat → Bytes → Prop)
  (s : State)

/-- An allocation that may be published and holds the present packing. -/
structure Present (key : Key) (gem : Nat) : Prop where
  owned : ∃ context, Owned registry s { key with context } gem
  holds : Current s key gem

/-- The phase has the steps it says. -/
def Phase.Placed (op : Dispatch) : Phase → Prop
  | .noted | .filled => op.homeSteps ≠ []
  | .between rest => rest <:+ op.replicas
  | .copied replica rest | .tagged replica rest =>
    replica :: rest <:+ op.replicas ∧ (replica.staging op.weightPacking).length = 3

/-- The allocations whose bytes the rest of the staging takes for the present packing. -/
def Phase.Relies (op : Dispatch) (home : Nat) : Phase → Nat → Prop
  | .noted, gem => ∃ length target, .copy (.host gem) length target ∈ op.homeSteps
  | .copied replica _, gem => gem = home ∨ gem = replica.weights.gem
  | _, gem => gem = home

/-- What is published next, under the generation noted last. -/
def Phase.ready (key : Key) (home : Nat) : Phase → Option (Key × Nat)
  | .filled => some (key, home)
  | .tagged replica _ => some ({ key with context := replica.context }, replica.weights.gem)
  | _ => none

/-- **What an execution relies on** in the middle of a dispatch that it began when the binding was at
`base`. What it has filled holds a packing made since then; while a write to the binding would be
published with old bytes, what it still reads is present. -/
structure InFlight (op : Dispatch) (key : Key) (home base generation : Nat) (phase : Phase) : Prop where
  placed : phase.Placed op
  begun : Since seen key.buffer base fun _ => True
  noted : phase = .noted → Since seen key.buffer generation fun _ => True
  packed : phase ≠ .noted → HoldsSince seen s key base home
  replicas : ∀ replica ∈ op.replicas, replica ∉ phase.rest op ∨ replica.weights.isHit →
    HoldsSince seen s key base replica.weights.gem
  source : settings.enabled → exposed (phase.pending op) →
    ∀ gem, phase.Relies op home gem → Present registry s key gem
  ready : settings.enabled → ∀ published gem, phase.ready key home = some (published, gem) →
    Served settings registry seen s published generation gem

/-- The allocations a dispatch reads its coefficients from. -/
def Dispatch.gems (op : Dispatch) : List Nat :=
  (match op.operand with
    | .gem gem => [gem]
    | .binding _ => []) ++ op.replicas.map (·.weights.gem)

/-- A dispatch with coefficients packed at compile time: what is not to be copied still was copied
since the dispatch began. -/
structure DirectInFlight (op : Dispatch) (base : Nat) (pending : List StagingStep) : Prop where
  begun : Since seen op.weights.buffer base fun _ => True
  copied : ∀ gem ∈ op.gems, (∀ step ∈ pending, step.target ≠ some gem) →
    Since seen op.weights.buffer base fun x => Copies op.weights x (s.gems gem)

/-- An allocation that a dispatch has its own packing in: made for it, or found in the cache. -/
def Home (key : Key) (gem : Nat) : Prop :=
  ∃ context, Made registry s { key with context } none true gem ∨
    settings.enabled ∧ Owned registry s { key with context } gem

/-- An execution that has begun a dispatch. -/
def UnderWay (op : Dispatch) (base : Nat) (execution : Execution) : Prop :=
  match op.fanout.key with
  | some key => ∃ home phase, op.operand = .gem home ∧
      op.staging.drop execution.staged = phase.pending op ∧
      InFlight settings registry seen s op key home base execution.generation phase
  | none => DirectInFlight seen s op base (op.staging.drop execution.staged)

/-- **The invariant.** -/
structure CacheInv (base : Nat → Nat) : Prop where
  sized : ∀ gem < s.nextGem, (s.gems gem).length = (registry gem).size
  entries : ∀ key entry, (key, entry) ∈ s.cache.entries →
    Served settings registry seen s key entry.generation entry.buffer
  ops : ∀ i op, .dispatch op ∈ (s.commandBuffers i).ops → Staged settings registry seen s op
  executions : ∀ index execution, s.execution index = some execution → 0 < execution.staged →
    ∃ op, s.operation execution = some (.dispatch op) ∧
      UnderWay settings registry seen s op (base index) execution

end

/-! ### Packings and memory -/

/-- Storing at the start of a large enough destination puts the bytes there. -/
theorem take_store {packed bytes : Bytes} (h : bytes.length ≤ packed.length) :
    (store packed 0 bytes).take bytes.length = bytes := by
  refine List.ext_getElem (by simp [length_store, h]) fun i hi hi' => ?_
  simp [store, List.getD_eq_getElem?_getD, hi']

theorem isPrefix_store {packed bytes : Bytes} (h : bytes.length ≤ packed.length) :
    bytes <+: store packed 0 bytes := by
  rw [List.prefix_iff_eq_take, take_store h]

theorem Holds.take {key : Key} {x content : Bytes} (h : Holds key x content) :
    Holds key x (content.take key.geometry.scratchLength) := by
  unfold Holds at *
  rw [h, List.take_take, min_self]

/-- What holds a packing is as long as the packing. -/
theorem Holds.length_take {key : Key} {x content : Bytes} (h : Holds key x content) :
    (content.take key.geometry.scratchLength).length = key.geometry.scratchLength :=
  length_packing h

/-- Writing a packing over the start of a large enough allocation makes it hold the packing. -/
theorem holds_store {key : Key} {x bytes old : Bytes} (h : Holds key x bytes)
    (hlength : bytes.length = key.geometry.scratchLength)
    (hsize : key.geometry.scratchLength ≤ old.length) : Holds key x (store old 0 bytes) := by
  unfold Holds at *
  rw [h, ← hlength, take_store (hlength.trans_le hsize), List.take_length]

theorem writeGem_gems_of_ne {s : State} {gem other : Nat} (h : other ≠ gem) (bytes : Bytes) :
    (s.writeGem gem bytes).gems other = s.gems other := Function.update_of_ne h _ _

theorem writeGem_gems_self (s : State) (gem : Nat) (bytes : Bytes) :
    (s.writeGem gem bytes).gems gem = store (s.gems gem) 0 bytes := Function.update_self _ _ _

/-! ### What survives a change of the state -/

section

variable {settings : Settings} {registry registry' : Nat → Allotment}
  {seen seen' : Nat → Nat → Bytes → Prop} {written : Nat → Prop} {base : Nat → Nat} {s s' s'' : State}

/-- A change that keeps what others rely on: allocations stay what they are for, a packing is replaced
by none older than those its users rely on, and a present packing stays present unless its binding is
`written`. -/
structure Keeps (settings : Settings) (registry registry' : Nat → Allotment)
    (seen : Nat → Nat → Bytes → Prop) (written : Nat → Prop) (s s' : State) : Prop where
  next : s.nextGem ≤ s'.nextGem
  allotments : ∀ gem < s.nextGem, registry' gem = registry gem
  home : ∀ {key since gem}, Home settings registry s key gem → HoldsSince seen s key since gem →
    HoldsSince seen s' key since gem
  replica : ∀ {key home published since gem}, Made registry s key (some home) published gem →
    Home settings registry s key home → HoldsSince seen s key since home →
    HoldsSince seen s key since gem → HoldsSince seen s' key since gem
  direct : ∀ {ref : BufferRef} {since gem}, Direct registry s ref gem →
    (Since seen ref.buffer since fun x => Copies ref x (s.gems gem)) →
    Since seen ref.buffer since fun x => Copies ref x (s'.gems gem)
  current : settings.enabled → ∀ {key gem}, ¬ written key.buffer → Owned registry s key gem →
    Current s key gem → Current s' key gem

theorem Made.keeps {key : Key} {home : Option Nat} {published : Bool} {gem : Nat}
    (h : Made registry s key home published gem)
    (hkeeps : Keeps settings registry registry' seen written s s') :
    Made registry' s' key home published gem where
  allocated := h.allocated.trans_le hkeeps.next
  purpose := by
    rw [hkeeps.allotments gem h.allocated]
    exact h.purpose
  size := by
    rw [hkeeps.allotments gem h.allocated]
    exact h.size

theorem Owned.keeps {key : Key} {gem : Nat} (h : Owned registry s key gem)
    (hkeeps : Keeps settings registry registry' seen written s s') : Owned registry' s' key gem := by
  obtain ⟨home, hmade⟩ := h
  exact ⟨home, hmade.keeps hkeeps⟩

theorem Direct.keeps {ref : BufferRef} {gem : Nat} (h : Direct registry s ref gem)
    (hkeeps : Keeps settings registry registry' seen written s s') : Direct registry' s' ref gem where
  allocated := h.allocated.trans_le hkeeps.next
  purpose := by
    rw [hkeeps.allotments gem h.allocated]
    exact h.purpose
  size := by
    rw [hkeeps.allotments gem h.allocated]
    exact h.size

theorem Served.keeps {key : Key} {generation gem : Nat}
    (h : Served settings registry seen s key generation gem)
    (hkeeps : Keeps settings registry registry' seen written s s') :
    Served settings registry' seen s' key generation gem :=
  ⟨h.enabled, h.owned.keeps hkeeps, hkeeps.home ⟨key.context, .inr ⟨h.enabled, h.owned⟩⟩ h.holds⟩

theorem Present.keeps {key : Key} {gem : Nat} (h : Present registry s key gem)
    (henabled : settings.enabled) (hkeeps : Keeps settings registry registry' seen written s s')
    (hwritten : ¬ written key.buffer) : Present registry' s' key gem := by
  obtain ⟨context, howned⟩ := h.owned
  have hcurrent : Current s' { key with context } gem :=
    hkeeps.current henabled hwritten howned h.holds
  exact ⟨⟨context, howned.keeps hkeeps⟩, hcurrent⟩

theorem Home.keeps {key : Key} {gem : Nat} (h : Home settings registry s key gem)
    (hkeeps : Keeps settings registry registry' seen written s s') :
    Home settings registry' s' key gem := by
  obtain ⟨context, hmade | ⟨henabled, howned⟩⟩ := h
  · exact ⟨context, .inl (hmade.keeps hkeeps)⟩
  · exact ⟨context, .inr ⟨henabled, howned.keeps hkeeps⟩⟩

theorem Keeps.trans {registry'' : Nat → Allotment}
    (h : Keeps settings registry registry' seen written s s')
    (h' : Keeps settings registry' registry'' seen written s' s'') :
    Keeps settings registry registry'' seen written s s'' where
  next := h.next.trans h'.next
  allotments gem hgem :=
    (h'.allotments gem (hgem.trans_le h.next)).trans (h.allotments gem hgem)
  home hhome hholds := h'.home (hhome.keeps h) (h.home hhome hholds)
  replica hmade hhome hsource hholds := h'.replica (hmade.keeps h) (hhome.keeps h)
    (h.home hhome hsource) (h.replica hmade hhome hsource hholds)
  direct hdirect hcopies := h'.direct (hdirect.keeps h) (h.direct hdirect hcopies)
  current henabled _ _ hwritten howned hcurrent :=
    h'.current henabled hwritten (howned.keeps h) (h.current henabled hwritten howned hcurrent)

theorem HomeStaged.keeps {op : Dispatch} {key : Key} {gem : Nat}
    (h : HomeStaged settings registry seen s op key gem)
    (hkeeps : Keeps settings registry registry' seen written s s') :
    HomeStaged settings registry' seen s' op key gem := by
  cases h with
  | hit copies packing served => exact .hit gem copies packing (served.keeps hkeeps)
  | shared other context copies packing made served =>
    exact .shared gem other context copies packing (made.keeps hkeeps) (served.keeps hkeeps)
  | packs copies packing publish scratch made =>
    exact .packs gem copies packing publish scratch (made.keeps hkeeps)

theorem HomeStaged.home {op : Dispatch} {key : Key} {gem : Nat}
    (h : HomeStaged settings registry seen s op key gem) : Home settings registry s key gem := by
  cases h with
  | hit _ _ served => exact ⟨key.context, .inr ⟨served.enabled, served.owned⟩⟩
  | shared _ _ _ _ made _ => exact ⟨key.context, .inl made⟩
  | packs _ _ _ _ made => exact ⟨key.context, .inl made⟩

theorem ReplicaStaged.keeps {generation home : Nat} {key : Key} {weights : ReplicaWeights}
    (h : ReplicaStaged settings registry seen s generation key home weights)
    (hkeeps : Keeps settings registry registry' seen written s s') :
    ReplicaStaged settings registry' seen s' generation key home weights := by
  cases h with
  | hit gem served => exact .hit gem (served.keeps hkeeps)
  | published gem made => exact .published gem (made.keeps hkeeps)
  | copied gem made => exact .copied gem (made.keeps hkeeps)

theorem Staged.keeps {op : Dispatch} (h : Staged settings registry seen s op)
    (hkeeps : Keeps settings registry registry' seen written s s') :
    Staged settings registry' seen s' op := by
  unfold Staged at *
  split at h
  · obtain ⟨gem, hoperand, hhome, hreplicas⟩ := h.home
    exact { h with home := ⟨gem, hoperand, hhome.keeps hkeeps,
      fun replica hreplica => (hreplicas replica hreplica).keeps hkeeps⟩ }
  · refine { h with home := ?_, replicas := fun replica hreplica => ?_ }
    · rcases h.home with hbinding | ⟨gem, hoperand, hdirect, hcopies⟩
      · exact .inl hbinding
      · exact .inr ⟨gem, hoperand, hdirect.keeps hkeeps, hcopies⟩
    · obtain ⟨gem, hdirect, hweights⟩ := h.replicas replica hreplica
      exact ⟨gem, hdirect.keeps hkeeps, hweights⟩

/-- What an execution relies on survives, unless its publications are exposed to a write. -/
theorem InFlight.keeps {op : Dispatch} {key : Key} {home base generation : Nat} {phase : Phase}
    (h : InFlight settings registry seen s op key home base generation phase)
    (hhome : HomeStaged settings registry seen s op key home)
    (hreplicas : ∀ replica ∈ op.replicas, ReplicaStaged settings registry seen s
      op.fanout.generation { key with context := replica.context } home replica.weights)
    (hkeeps : Keeps settings registry registry' seen written s s')
    (hexposed : settings.enabled → exposed (phase.pending op) → ¬ written key.buffer) :
    InFlight settings registry' seen s' op key home base generation phase where
  placed := h.placed
  begun := h.begun
  noted := h.noted
  packed hphase := hkeeps.home hhome.home (h.packed hphase)
  replicas replica hreplica hfilled := by
    have hholds := h.replicas replica hreplica hfilled
    have hstaged := hreplicas replica hreplica
    have hsource : replica.weights.isHit = false → HoldsSince seen s key base home := by
      rintro hmiss
      refine h.packed ?_
      rintro rfl
      rcases hfilled with hrest | hhit
      · exact hrest hreplica
      · rw [hmiss] at hhit
        cases hhit
    revert hholds hsource
    generalize replica.weights = weights at hstaged
    intro hholds hsource
    have hcopy {published : Bool} {gem : Nat}
        (hmade : Made registry s { key with context := replica.context } (some home) published gem)
        (hmiss : HoldsSince seen s key base home) (hold : HoldsSince seen s key base gem) :
        HoldsSince seen s' { key with context := replica.context } base gem :=
      hkeeps.replica hmade hhome.home hmiss hold
    cases hstaged with
    | hit gem served =>
      exact hkeeps.home ⟨replica.context, .inr ⟨served.enabled, served.owned⟩⟩ hholds
    | published gem made => exact hcopy made (hsource rfl) hholds
    | copied gem made => exact hcopy made (hsource rfl) hholds
  source henabled hopen gem hrelies :=
    (h.source henabled hopen gem hrelies).keeps henabled hkeeps (hexposed henabled hopen)
  ready henabled published gem hready := (h.ready henabled published gem hready).keeps hkeeps

theorem DirectDispatch.direct_of_mem {op : Dispatch} (h : DirectDispatch registry s op) {gem : Nat}
    (hgem : gem ∈ op.gems) : Direct registry s op.weights gem := by
  unfold Dispatch.gems at hgem
  rcases List.mem_append.mp hgem with hhome | hreplica
  · rcases h.home with ⟨hoperand, -⟩ | ⟨gem', hoperand, hdirect, -⟩ <;> rw [hoperand] at hhome
    · cases hhome
    · rw [List.mem_singleton.mp hhome]
      exact hdirect
  · obtain ⟨replica, hmem, rfl⟩ := List.mem_map.mp hreplica
    obtain ⟨gem', hdirect, hweights⟩ := h.replicas replica hmem
    rw [hweights]
    exact hdirect

theorem DirectInFlight.keeps {op : Dispatch} {base : Nat} {pending : List StagingStep}
    (h : DirectInFlight seen s op base pending) (hop : DirectDispatch registry s op)
    (hkeeps : Keeps settings registry registry' seen written s s') :
    DirectInFlight seen s' op base pending where
  begun := h.begun
  copied gem hgem hfilled := hkeeps.direct (hop.direct_of_mem hgem) (h.copied gem hgem hfilled)

/-- No publication that an execution still has to make from a binding in a `written` buffer is
exposed. -/
def Covered (settings : Settings) (written : Nat → Prop) (op : Dispatch) (execution : Execution) : Prop :=
  settings.enabled → op.fanout.key.isSome → exposed (op.staging.drop execution.staged) →
    ¬ written op.weights.buffer

theorem UnderWay.keeps {op : Dispatch} {base : Nat} {execution : Execution}
    (h : UnderWay settings registry seen s op base execution)
    (hop : Staged settings registry seen s op)
    (hkeeps : Keeps settings registry registry' seen written s s')
    (hcovered : Covered settings written op execution) :
    UnderWay settings registry' seen s' op base execution := by
  unfold UnderWay at *
  unfold Staged at hop
  unfold Covered at hcovered
  split at h
  next key hkey =>
    obtain ⟨home, phase, hoperand, hpending, hflight⟩ := h
    simp only [hkey, Option.isSome_some, forall_true_left] at hop hcovered
    obtain ⟨gem, hgem, hhome, hreplicas⟩ := hop.home
    obtain rfl : gem = home := Operand.gem.inj (hgem.symm.trans hoperand)
    refine ⟨gem, phase, hoperand, hpending, hflight.keeps hhome hreplicas hkeeps ?_⟩
    rwa [hpending, hop.weights] at hcovered
  next hkey =>
    simp only [hkey] at hop
    exact h.keeps hop hkeeps

/-- Changes elsewhere than in the allocations keep everything. -/
theorem Keeps.of_memory (hgems : s'.gems = s.gems) (hnext : s'.nextGem = s.nextGem)
    (hbuffers : ∀ b, ¬ written b → s'.buffers b = s.buffers b) :
    Keeps settings registry registry seen written s s' where
  next := hnext.ge
  allotments _ _ := rfl
  home _ hholds := by
    unfold HoldsSince
    rw [hgems]
    exact hholds
  replica _ _ _ hholds := by
    unfold HoldsSince
    rw [hgems]
    exact hholds
  direct _ hcopies := by
    rw [hgems]
    exact hcopies
  current _ _ _ hwritten _ hcurrent := by
    unfold Current
    rw [hgems, hbuffers _ hwritten]
    exact hcurrent

/-- **A change that keeps what is relied on keeps the invariant**, if it only drops cache entries or
adds served ones, records staged operations, and leaves the executions that have begun a dispatch. -/
theorem CacheInv.keeps (h : CacheInv settings registry seen s base)
    (hkeeps : Keeps settings registry registry' seen written s s')
    (hsized : ∀ gem < s'.nextGem, (s'.gems gem).length = (registry' gem).size)
    (hcache : ∀ key entry, (key, entry) ∈ s'.cache.entries → (key, entry) ∈ s.cache.entries ∨
      Served settings registry' seen s' key entry.generation entry.buffer)
    (hrecorded : ∀ i, ∃ more, (s'.commandBuffers i).ops = (s.commandBuffers i).ops ++ more ∧
      ∀ op, .dispatch op ∈ more → Staged settings registry' seen s' op)
    (hexecutions : ∀ index execution, s'.execution index = some execution →
      0 < execution.staged → s.execution index = some execution)
    (hcovered : ∀ index execution op, s.execution index = some execution → 0 < execution.staged →
      s.operation execution = some (.dispatch op) → Covered settings written op execution) :
    CacheInv settings registry' seen s' base where
  sized := hsized
  entries key entry hmem := by
    rcases hcache key entry hmem with hold | hserved
    · exact (h.entries key entry hold).keeps hkeeps
    · exact hserved
  ops i op hop := by
    obtain ⟨more, hops, hstaged⟩ := hrecorded i
    rw [hops] at hop
    rcases List.mem_append.mp hop with hold | hnew
    · exact (h.ops i op hold).keeps hkeeps
    · exact hstaged op hnew
  executions index execution hexecution hbegun := by
    have hold := hexecutions index execution hexecution hbegun
    obtain ⟨op, hop, hunderway⟩ := h.executions index execution hold hbegun
    obtain ⟨more, hops, -⟩ := hrecorded execution.commandBuffer
    refine ⟨op, ?_, hunderway.keeps (h.ops _ op (List.mem_of_getElem? hop)) hkeeps
      (hcovered index execution op hold hbegun hop)⟩
    unfold State.operation at *
    rw [hops]
    exact List.getElem?_append_left (List.getElem?_eq_some_iff.mp hop).1 ▸ hop

/-- Steps that record nothing and leave the allocations, the cache and the executions keep it too. -/
theorem CacheInv.of_memory (h : CacheInv settings registry seen s base) (hgems : s'.gems = s.gems)
    (hnext : s'.nextGem = s.nextGem) (hbuffers : ∀ b, ¬ written b → s'.buffers b = s.buffers b)
    (hcache : ∀ key entry, (key, entry) ∈ s'.cache.entries → (key, entry) ∈ s.cache.entries)
    (hops : s'.commandBuffers = s.commandBuffers)
    (hexecutions : ∀ index execution, s'.execution index = some execution →
      0 < execution.staged → s.execution index = some execution)
    (hcovered : ∀ index execution op, s.execution index = some execution → 0 < execution.staged →
      s.operation execution = some (.dispatch op) → Covered settings written op execution) :
    CacheInv settings registry seen s' base := by
  refine h.keeps (.of_memory hgems hnext hbuffers) (fun gem hgem => ?_)
    (fun key entry hmem => .inl (hcache key entry hmem)) (fun i => ⟨[], ?_, by simp⟩) hexecutions
    hcovered
  · rw [hgems]
    exact h.sized gem (hnext ▸ hgem)
  · rw [hops, List.append_nil]

/-- Nothing is written. -/
def nowhere (_ : Nat) : Prop := False

theorem covered_nowhere (op : Dispatch) (execution : Execution) :
    Covered settings nowhere op execution := fun _ _ _ hwritten => hwritten

/-- A longer history keeps everything. -/
theorem CacheInv.mono (h : CacheInv settings registry seen s base)
    (hseen : ∀ {b g x}, seen b g x → seen' b g x) : CacheInv settings registry seen' s base := by
  have hsince {b since : Nat} {P : Bytes → Prop} (hold : Since seen b since P) :
      Since seen' b since P := hold.imp hseen fun _ hp => hp
  have hserved {key : Key} {generation gem : Nat}
      (hold : Served settings registry seen s key generation gem) :
      Served settings registry seen' s key generation gem := { hold with holds := hsince hold.holds }
  have hstaged {op : Dispatch} (hold : Staged settings registry seen s op) :
      Staged settings registry seen' s op := by
    unfold Staged at *
    split at hold
    · obtain ⟨gem, hoperand, hhome, hreplicas⟩ := hold.home
      refine { hold with home := ⟨gem, hoperand, ?_, fun replica hreplica => ?_⟩ }
      · cases hhome with
        | hit copies packing served => exact .hit gem copies packing (hserved served)
        | shared other context copies packing made served =>
          exact .shared gem other context copies packing made (hserved served)
        | packs copies packing publish scratch made =>
          exact .packs gem copies packing publish scratch made
      · have hreplica := hreplicas replica hreplica
        generalize replica.weights = weights at hreplica
        cases hreplica with
        | hit gem served => exact .hit gem (hserved served)
        | published gem made => exact .published gem made
        | copied gem made => exact .copied gem made
    · exact hold
  refine ⟨h.sized, fun key entry hmem => hserved (h.entries key entry hmem),
    fun i op hop => hstaged (h.ops i op hop), fun index execution hexecution hbegun => ?_⟩
  obtain ⟨op, hop, hunderway⟩ := h.executions index execution hexecution hbegun
  refine ⟨op, hop, ?_⟩
  unfold UnderWay at *
  split at hunderway
  · obtain ⟨home, phase, hoperand, hpending, hflight⟩ := hunderway
    exact ⟨home, phase, hoperand, hpending, {
      hflight with
      begun := hsince hflight.begun
      noted := fun hphase => hsince (hflight.noted hphase)
      packed := fun hphase => hsince (hflight.packed hphase)
      replicas := fun replica hreplica hfilled => hsince (hflight.replicas replica hreplica hfilled)
      ready := fun henabled published gem hready =>
        hserved (hflight.ready henabled published gem hready) }⟩
  · exact ⟨hsince hunderway.begun, fun gem hgem hfilled => hsince (hunderway.copied gem hgem hfilled)⟩

/-! ### Recording -/

/-- What recording may do to the state: allocate, drop cache entries, and keep everything else. -/
structure Grows (registry registry' : Nat → Allotment) (seen : Nat → Nat → Bytes → Prop)
    (settings : Settings) (base : Nat → Nat) (s s' : State) : Prop where
  inv : CacheInv settings registry' seen s' base
  keeps : Keeps settings registry registry' seen nowhere s s'

theorem Grows.trans {registry'' : Nat → Allotment}
    (h : Grows registry registry' seen settings base s s')
    (h' : Grows registry' registry'' seen settings base s' s'') :
    Grows registry registry'' seen settings base s s'' where
  inv := h'.inv
  keeps := h.keeps.trans h'.keeps

theorem CacheInv.withCache (h : CacheInv settings registry seen s base) (cache : Cache)
    (hsub : ∀ key entry, (key, entry) ∈ cache.entries → (key, entry) ∈ s.cache.entries) :
    Grows registry registry seen settings base s { s with cache } where
  inv := h.of_memory rfl rfl (fun _ _ => rfl) hsub rfl (fun _ _ hexecution _ => hexecution)
    fun _ _ op _ _ _ => covered_nowhere op _
  keeps := .of_memory rfl rfl fun _ _ => rfl

theorem CacheInv.same (h : CacheInv settings registry seen s base) :
    Grows registry registry seen settings base s s :=
  ⟨h, .of_memory rfl rfl fun _ _ => rfl⟩

/-- Allocating keeps the invariant, whatever the allocation is for. -/
theorem CacheInv.grow (h : CacheInv settings registry seen s base) (length : Nat)
    (purpose : Purpose) :
    Grows registry (Function.update registry s.nextGem ⟨max length 1, purpose⟩) seen settings base s
      (s.allocate length) := by
  have hgem : ∀ gem < s.nextGem, (s.allocate length).gems gem = s.gems gem :=
    fun gem hgem => Function.update_of_ne hgem.ne _ _
  have hregistry : ∀ gem < s.nextGem,
      Function.update registry s.nextGem ⟨max length 1, purpose⟩ gem = registry gem :=
    fun gem hgem => Function.update_of_ne hgem.ne _ _
  have hholds {key : Key} {since gem : Nat} (hallocated : gem < s.nextGem)
      (hold : HoldsSince seen s key since gem) : HoldsSince seen (s.allocate length) key since gem := by
    unfold HoldsSince
    rw [hgem gem hallocated]
    exact hold
  have hkeeps : Keeps settings registry
      (Function.update registry s.nextGem ⟨max length 1, purpose⟩) seen nowhere s
      (s.allocate length) := {
    next := Nat.le_succ _
    allotments := hregistry
    home := by
      rintro key since gem ⟨context, hmade | ⟨-, home, hmade⟩⟩ hold <;>
        exact hholds hmade.allocated hold
    replica := fun hmade _ _ hold => hholds hmade.allocated hold
    direct := fun hdirect hold => by
      rw [hgem _ hdirect.allocated]
      exact hold
    current := fun _ _ gem _ howned hold => by
      obtain ⟨home, hmade⟩ := howned
      unfold Current
      rw [hgem gem hmade.allocated]
      exact hold }
  refine ⟨h.keeps hkeeps (fun gem hlt => ?_) (fun _ _ hmem => .inl hmem)
    (fun i => ⟨[], (List.append_nil _).symm, by simp⟩) (fun _ _ hexecution _ => hexecution)
    (fun _ _ op _ _ _ => covered_nowhere op _), hkeeps⟩
  rcases Nat.lt_succ_iff_lt_or_eq.mp hlt with hlt | rfl
  · rw [hgem gem hlt, hregistry gem hlt]
    exact h.sized gem hlt
  · simp [State.allocate]

theorem Made.allocate (registry : Nat → Allotment) (s : State) {length : Nat} {key : Key}
    (home : Option Nat) (published : Bool) (hlength : key.geometry.scratchLength ≤ max length 1) :
    Made (Function.update registry s.nextGem ⟨max length 1, .packing key home published⟩)
      (s.allocate length) key home published s.nextGem where
  allocated := Nat.lt_succ_self _
  purpose := by rw [Function.update_self]
  size := by
    rw [Function.update_self]
    exact hlength

theorem Direct.allocate (registry : Nat → Allotment) (s : State) (ref : BufferRef) :
    Direct (Function.update registry s.nextGem ⟨max ref.length 1, .binding ref⟩)
      (s.allocate ref.length) ref s.nextGem where
  allocated := Nat.lt_succ_self _
  purpose := by rw [Function.update_self]
  size := by
    rw [Function.update_self]
    exact le_max_left _ _

theorem lookupUnless_mem {pending : Bool} {key other : Key} {generation : Nat} {entry : Entry}
    (h : (other, entry) ∈ (s.lookupUnless settings pending key generation).2.entries) :
    (other, entry) ∈ s.cache.entries := by
  unfold State.lookupUnless at h
  split at h
  · exact h
  · exact Cache.mem_lookup h

/-- A hit serves. -/
theorem CacheInv.lookupUnless_served (h : CacheInv settings registry seen s base) {pending : Bool}
    {key : Key} {generation gem : Nat}
    (hfound : (s.lookupUnless settings pending key generation).1 = some gem) :
    Served settings registry seen s key generation gem := by
  unfold State.lookupUnless at hfound
  split at hfound
  · cases hfound
  · obtain ⟨-, entry, hmem, rfl, rfl⟩ := Cache.lookup_some hfound
    exact h.entries key entry hmem

theorem CacheInv.lookupOtherUnless_served (h : CacheInv settings registry seen s base) {pending : Bool}
    {key : Key} {generation gem : Nat}
    (hfound : s.lookupOtherUnless settings pending key generation = some gem) :
    ∃ context, Served settings registry seen s { key with context } generation gem := by
  unfold State.lookupOtherUnless at hfound
  split at hfound
  · cases hfound
  · obtain ⟨-, context, entry, hmem, rfl, rfl⟩ := Cache.lookupOtherContext_some hfound
    exact ⟨context, h.entries _ entry hmem⟩

/-- **What staging through the cache records.** -/
theorem CacheInv.stageWeights (h : CacheInv settings registry seen s base) (cb : CommandBuffer)
    (ref : BufferRef) (geometry : Geometry) (plan : WeightPlan) {key : Key}
    (hkey : key = ⟨ref.buffer, ref.offset, ref.length, geometry, cb.context⟩)
    {staged : State × StagedWeights × List StagedCopy}
    (hstaged : s.stageWeights settings cb ref geometry plan = staged) :
    ∃ registry' gem, Grows registry registry' seen settings base s staged.1 ∧
      staged.2.1.operand = .gem gem ∧ staged.2.1.scratch = some gem ∧
      staged.2.1.fanout.key = some key ∧
      staged.2.1.fanout.length = geometry.scratchLength ∧
      staged.2.1.fanout.generation = (s.buffers ref.buffer).generation ∧
      ∀ op : Dispatch, op.stagedCopies = staged.2.2 → op.weightPacking = staged.2.1.packing →
        op.weightPublish = staged.2.1.publish → op.weightScratch = staged.2.1.scratch →
        op.fanout = staged.2.1.fanout → op.plan = plan →
        HomeStaged settings registry' seen staged.1 op key gem := by
  subst hkey hstaged
  unfold State.stageWeights
  simp only
  generalize hpending : (cb.ops.any fun op => op.writeTarget == ref.buffer) = pending
  generalize hgeneration : (s.buffers ref.buffer).generation = generation
  generalize hk : Key.mk ref.buffer ref.offset ref.length geometry cb.context = key
  have hgeometry : key.geometry = geometry := by rw [← hk]
  have hbuffer : key.buffer = ref.buffer := by rw [← hk]
  have hcache := h.withCache (s.lookupUnless settings pending key generation).2
    fun _ _ hmem => lookupUnless_mem hmem
  split
  next gem hhit =>
    refine ⟨registry, gem, hcache, rfl, rfl, rfl, rfl, rfl,
      fun op hcopies hpacking _ _ hfanout _ => .hit gem hcopies hpacking ?_⟩
    rw [hfanout]
    exact (h.lookupUnless_served hhit).keeps hcache.keeps
  next =>
    have hgrow := hcache.inv.grow geometry.scratchLength (.packing key none true)
    have hmade := Made.allocate registry
      { s with cache := (s.lookupUnless settings pending key generation).2 } none true
      (show key.geometry.scratchLength ≤ max geometry.scratchLength 1 by
        rw [hgeometry]
        exact le_max_left _ _)
    split
    next other hother =>
      obtain ⟨context, hserved⟩ := hcache.inv.lookupOtherUnless_served hother
      refine ⟨_, s.nextGem, hcache.trans hgrow, rfl, rfl, rfl, rfl, rfl,
        fun op hcopies hpacking _ _ hfanout _ => .shared s.nextGem other context ?_ hpacking hmade ?_⟩
      · rw [hcopies, hgeometry, hbuffer]
      · rw [hfanout]
        exact hserved.keeps hgrow.keeps
    next =>
      refine ⟨_, s.nextGem, hcache.trans hgrow, rfl, rfl, rfl, rfl, rfl,
        fun op hcopies hpacking hpublish hscratch hfanout hplan =>
          .packs s.nextGem hcopies ?_ ?_ hscratch hmade⟩
      · rw [hpacking, hplan, ← hk]
      · rw [hpublish, hgeometry]

/-- What building a replica of cached coefficients records. -/
theorem CacheInv.buildReplica (h : CacheInv settings registry seen s base) (ref : BufferRef)
    (context : Nat) {staged : StagedWeights} {home : Nat} {key : Key} (hscratch : staged.scratch = some home)
    (hkey : staged.fanout.key = some key)
    (hlength : staged.fanout.length = key.geometry.scratchLength) :
    ∃ registry', Grows registry registry' seen settings base s
        (s.buildReplica settings ref staged context).1 ∧
      ReplicaStaged settings registry' seen (s.buildReplica settings ref staged context).1
        staged.fanout.generation { key with context } home
        (s.buildReplica settings ref staged context).2 := by
  unfold State.buildReplica State.packedReplica
  simp only [hscratch, hkey]
  generalize hreplica : Key.mk key.buffer key.offset key.length key.geometry context = replica
  have hgeometry : replica.geometry = key.geometry := by rw [← hreplica]
  have hcache := h.withCache
    (s.lookupUnless settings (!staged.fanout.publishable) replica staged.fanout.generation).2 fun _ _ hmem => lookupUnless_mem hmem
  split
  next gem hhit =>
    exact ⟨registry, hcache, .hit gem ((h.lookupUnless_served hhit).keeps hcache.keeps)⟩
  next =>
    rw [hlength, ← hgeometry]
    by_cases hpublishable : staged.fanout.publishable = true
    · rw [if_pos hpublishable]
      have hgrow := hcache.inv.grow replica.geometry.scratchLength (.packing replica (some home) true)
      exact ⟨_, hcache.trans hgrow, .published s.nextGem
        (Made.allocate registry { s with cache := _ } (some home) true (le_max_left _ _))⟩
    · rw [if_neg hpublishable]
      have hgrow := hcache.inv.grow replica.geometry.scratchLength (.packing replica (some home) false)
      exact ⟨_, hcache.trans hgrow, .copied s.nextGem
        (Made.allocate registry { s with cache := _ } (some home) false (le_max_left _ _))⟩

theorem CacheInv.buildReplicas (ref : BufferRef) {staged : StagedWeights} {home : Nat} {key : Key}
    (hscratch : staged.scratch = some home) (hkey : staged.fanout.key = some key)
    (hlength : staged.fanout.length = key.geometry.scratchLength) (contexts : List Nat) :
    ∀ {registry : Nat → Allotment} {s : State}, CacheInv settings registry seen s base →
    ∃ registry', Grows registry registry' seen settings base s
        (State.buildReplicas settings ref staged s contexts).1 ∧
      ∀ replica ∈ (State.buildReplicas settings ref staged s contexts).2,
        ReplicaStaged settings registry' seen (State.buildReplicas settings ref staged s contexts).1
          staged.fanout.generation { key with context := replica.context } home
          replica.weights := by
  induction contexts with
  | nil =>
    intro registry s h
    exact ⟨registry, h.same, by simp [State.buildReplicas]⟩
  | cons context contexts ih =>
    intro registry s h
    obtain ⟨first, hfirst, hreplica⟩ := h.buildReplica ref context hscratch hkey hlength
    obtain ⟨last, hlast, hreplicas⟩ := ih hfirst.inv
    refine ⟨last, hfirst.trans hlast, ?_⟩
    simp only [State.buildReplicas, List.mem_cons]
    rintro replica (rfl | hmem)
    · exact hreplica.keeps hlast.keeps
    · exact hreplicas replica hmem

/-- What staging compile-time packed coefficients records. -/
theorem CacheInv.stageDirect (h : CacheInv settings registry seen s base) (cb : CommandBuffer)
    (ref : BufferRef) {staged : State × StagedWeights × List StagedCopy}
    (hstaged : s.stageDirect cb ref = staged) :
    ∃ registry', Grows registry registry' seen settings base s staged.1 ∧
      staged.2.1.fanout.key = none ∧ staged.2.1.fanout.length = ref.length ∧
      staged.2.1.packing = none ∧
      ((staged.2.1.operand = .binding ref ∧ staged.2.2 = []) ∨
        ∃ gem, staged.2.1.operand = .gem gem ∧ Direct registry' staged.1 ref gem ∧
          staged.2.2 = [{ source := .binding ref.buffer ref.offset, length := ref.length
                          scratch := gem, publish := none }]) := by
  subst hstaged
  unfold State.stageDirect
  simp only
  by_cases hcontext : cb.context = 0
  · rw [if_pos hcontext]
    exact ⟨registry, h.same, rfl, rfl, rfl, .inl ⟨rfl, rfl⟩⟩
  · rw [if_neg hcontext]
    exact ⟨_, h.grow ref.length (.binding ref), rfl, rfl, rfl,
      .inr ⟨s.nextGem, rfl, Direct.allocate registry s ref, rfl⟩⟩

theorem CacheInv.buildReplicas_direct {ref : BufferRef} {staged : StagedWeights}
    (hkey : staged.fanout.key = none) (hlength : staged.fanout.length = ref.length)
    (contexts : List Nat) :
    ∀ {registry : Nat → Allotment} {s : State}, CacheInv settings registry seen s base →
    ∃ registry', Grows registry registry' seen settings base s
        (State.buildReplicas settings ref staged s contexts).1 ∧
      ∀ replica ∈ (State.buildReplicas settings ref staged s contexts).2, ∃ gem,
        Direct registry' (State.buildReplicas settings ref staged s contexts).1 ref gem ∧
        replica.weights = .direct gem (.binding ref.buffer ref.offset) ref.length := by
  induction contexts with
  | nil =>
    intro registry s h
    exact ⟨registry, h.same, by simp [State.buildReplicas]⟩
  | cons context contexts ih =>
    intro registry s h
    have hbuilt : s.buildReplica settings ref staged context =
        (s.allocate ref.length, .direct s.nextGem (.binding ref.buffer ref.offset) ref.length) := by
      unfold State.buildReplica
      rw [hkey, hlength]
      cases staged.scratch <;> rfl
    have hfirst := h.grow ref.length (.binding ref)
    obtain ⟨last, hlast, hreplicas⟩ := ih hfirst.inv
    refine ⟨last, ?_, ?_⟩
    · simp only [State.buildReplicas, hbuilt]
      exact hfirst.trans hlast
    · simp only [State.buildReplicas, hbuilt, List.mem_cons]
      rintro replica (rfl | hmem)
      · exact ⟨s.nextGem, (Direct.allocate registry s ref).keeps hlast.keeps, rfl⟩
      · exact hreplicas replica hmem

/-- Appending a staged operation to a command buffer. -/
theorem CacheInv.push (h : CacheInv settings registry seen s base) (commandBuffer : Nat)
    {op : RecordedOp} (hop : ∀ d, op = .dispatch d → Staged settings registry seen s d) :
    CacheInv settings registry seen (s.push commandBuffer op) base := by
  have hkeeps : Keeps settings registry registry seen nowhere s (s.push commandBuffer op) :=
    .of_memory rfl rfl fun _ _ => rfl
  refine h.keeps hkeeps h.sized (fun _ _ hmem => .inl hmem) (fun i => ?_)
    (fun _ _ hexecution _ => hexecution) fun _ _ d _ _ _ => covered_nowhere d _
  simp only [State.push, Function.update_apply]
  split_ifs with hi
  · refine ⟨[op], by rw [hi], fun d hd => ?_⟩
    exact (hop d (List.mem_singleton.mp hd).symm).keeps hkeeps
  · exact ⟨[], (List.append_nil _).symm, by simp⟩

/-- **Recording a dispatch keeps the invariant.** -/
theorem CacheInv.recordDispatch (h : CacheInv settings registry seen s base) (commandBuffer : Nat)
    (request : DispatchRequest) :
    ∃ registry', CacheInv settings registry' seen (s.recordDispatch settings commandBuffer request)
      base := by
  unfold State.recordDispatch
  split
  next conv plan hconv hplan =>
    simp only
    split_ifs with hpacked
    · split
      next bytes hbytes =>
        split_ifs with hfits
        · obtain ⟨first, hfirst, hkey, hlength, hpacking, hhome⟩ :=
            h.stageDirect (s.commandBuffers commandBuffer) request.weights rfl
          generalize s.stageDirect (s.commandBuffers commandBuffer) request.weights = staged at *
          unfold State.recordStaged
          simp only
          generalize (if request.epilogueAdd = true then [] else
            (staged.1.commandBuffers commandBuffer).fanoutContexts conv.tiles.length) = contexts
          obtain ⟨last, hlast, hreplicas⟩ := CacheInv.buildReplicas_direct hkey hlength contexts
            hfirst.inv
          refine ⟨last, hlast.inv.push _ fun d hd => ?_⟩
          obtain rfl := RecordedOp.dispatch.inj hd
          unfold Staged
          simp only [hkey]
          refine ⟨hlength, hpacking, ?_, hreplicas⟩
          rcases hhome with hbinding | ⟨gem, hoperand, hdirect, hcopies⟩
          · exact .inl hbinding
          · exact .inr ⟨gem, hoperand, hdirect.keeps hlast.keeps, hcopies⟩
        · exact ⟨registry, h⟩
      · exact ⟨registry, h⟩
    · split
      next geometry hgeometry =>
        obtain ⟨first, gem, hfirst, hoperand, hscratch, hkey, hlength, -, hhome⟩ :=
          h.stageWeights (s.commandBuffers commandBuffer) request.weights geometry plan rfl rfl
        generalize s.stageWeights settings (s.commandBuffers commandBuffer) request.weights geometry
          plan = staged at *
        unfold State.recordStaged
        simp only
        generalize (if request.epilogueAdd = true then [] else
          (staged.1.commandBuffers commandBuffer).fanoutContexts conv.tiles.length) = contexts
        obtain ⟨last, hlast, hreplicas⟩ := CacheInv.buildReplicas request.weights hscratch hkey
          hlength contexts hfirst.inv
        refine ⟨last, hlast.inv.push _ fun d hd => ?_⟩
        obtain rfl := RecordedOp.dispatch.inj hd
        unfold Staged
        simp only [hkey]
        exact {
          weights := rfl
          length := hlength
          describes := request.coefficients.describes hconv hplan hgeometry
          home := ⟨gem, hoperand, (hhome _ rfl rfl rfl rfl rfl rfl).keeps hlast.keeps, hreplicas⟩ }
      · exact ⟨registry, h⟩
  · exact ⟨registry, h⟩

end

end IreeRocket.Driver
