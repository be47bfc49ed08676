import IreeRocket.Driver.CacheRuns

/-!
# The weight cache is transparent

A dispatch reads the packing of the bytes its binding has when it executes, as it would with the cache
disabled. This rests on two conditions that the driver does not check. Recording decides that a cached
packing may be read or copied, and execution acts on the decision without looking at the generation
again; and the generation a replica is published under is read after the packing it is copied from was
made. A run that does not meet the first reads a stale packing.
-/

namespace IreeRocket.Driver

open Conv Weights WeightCache Runs

/-- What a dispatch reads with the cache disabled, for a binding in a buffer that holds `bytes`: a
packing of the binding, or its bytes themselves where they were packed at compile time. -/
def Dispatch.packed (op : Dispatch) (bytes : Bytes) : Option Bytes :=
  match op.fanout.key with
  | some _ => do
    let denseLen ← op.plan.denseBytes.toOption
    let packed ← (op.plan.pack (load bytes op.weights.offset denseLen)
      (List.replicate op.fanout.length 0)).toOption
    some packed.2
  | none => some (load bytes op.weights.offset op.weights.length)

/-- What the job finds at its coefficient address on a context: index 0 is the dispatch's own context
and index `i + 1` its replica `i`. -/
def State.coefficients (s : State) (op : Dispatch) : Nat → Option Bytes
  | 0 =>
    match op.operand with
    | .gem gem => some (s.gems gem)
    | .binding ref => some ((s.buffers ref.buffer).bytes.drop ref.offset)
  | index + 1 => op.replicas[index]?.map fun replica => s.gems replica.weights.gem

/-- On every context the dispatch runs on, its job finds coefficients that `fresh` allows. -/
def State.Reads (s : State) (op : Dispatch) (fresh : Bytes → Prop) : Prop :=
  ∀ context ≤ op.replicas.length, ∃ content, s.coefficients op context = some content ∧
    ∃ expected, fresh expected ∧ expected <+: content

section

variable {settings : Settings} {registry : Nat → Allotment} {seen : Nat → Nat → Bytes → Prop}
  {base : Nat → Nat} {s : State} {run earlier later : List Action}

/-- What a packing is: the coefficients of a dispatch that is staged through the cache. -/
theorem CachedDispatch.packed {op : Dispatch} {key : Key} (hkey : op.fanout.key = some key)
    (hop : CachedDispatch settings registry seen s op key) {x content : Bytes}
    (h : Holds key x content) : op.packed x = some (content.take key.geometry.scratchLength) := by
  have hscratch : (List.replicate key.geometry.scratchLength (0 : UInt8)).length =
    key.geometry.scratchLength := List.length_replicate
  obtain ⟨count, hpack⟩ := (hop.describes.packs_iff hscratch).mpr h
  unfold Dispatch.packed
  rw [hkey, hop.describes.denseBytes_eq, hop.length, hop.weights]
  simp only [Except.toOption, Option.bind_eq_bind, Option.bind_some, hpack]

/-- **What a submitted job reads**, from the invariant: on every context the coefficients of bytes the
binding has held since the dispatch began. -/
theorem CacheInv.reads (h : CacheInv settings registry seen s base) (hist : History seen s)
    {index : Nat} {execution : Execution} {op : Dispatch}
    (hexecution : s.execution index = some execution)
    (hop : s.operation execution = some (.dispatch op))
    (hjob : op.staging.length < execution.staged) :
    s.Reads op fun expected => Since seen op.weights.buffer (base index) fun x =>
      op.packed x = some expected := by
  obtain ⟨op', hop', hunderway⟩ := h.executions index execution hexecution (by omega)
  obtain rfl := RecordedOp.dispatch.inj (Option.some.inj (hop'.symm.trans hop))
  have hstaged := h.ops _ op' (List.mem_of_getElem? hop)
  unfold UnderWay at hunderway
  rw [List.drop_eq_nil_of_le hjob.le] at hunderway
  unfold Staged at hstaged
  intro context hcontext
  split at hstaged
  next key hkey =>
    simp only [hkey] at hunderway
    obtain ⟨home, phase, hoperand, hpending, hflight⟩ := hunderway
    have hread {gem : Nat} (hholds : HoldsSince seen s key (base index) gem) : ∃ expected,
        (Since seen op'.weights.buffer (base index) fun x => op'.packed x = some expected) ∧
          expected <+: s.gems gem := by
      obtain ⟨g, x, hle, hx, hx'⟩ := hholds
      refine ⟨_, ⟨g, x, hle, ?_, hstaged.packed hkey hx'⟩, List.take_prefix _ _⟩
      rw [hstaged.weights]
      exact hx
    obtain ⟨hhome, hreplicas⟩ := hflight.done hstaged hoperand hpending.symm
    cases context with
    | zero => exact ⟨s.gems home, by simp only [State.coefficients, hoperand], hread hhome⟩
    | succ i =>
      have hi : i < op'.replicas.length := hcontext
      exact ⟨s.gems op'.replicas[i].weights.gem,
        by simp only [State.coefficients, List.getElem?_eq_getElem hi, Option.map_some],
        hread (hreplicas _ (List.getElem_mem hi))⟩
  next hkey =>
    simp only [hkey] at hunderway
    have hread {gem : Nat} (hgem : gem ∈ op'.gems) : ∃ expected,
        (Since seen op'.weights.buffer (base index) fun x => op'.packed x = some expected) ∧
          expected <+: s.gems gem := by
      obtain ⟨g, x, hle, hx, hx'⟩ := hunderway.copied gem hgem fun _ hmem => nomatch hmem
      exact ⟨load x op'.weights.offset op'.weights.length, ⟨g, x, hle, hx, by
        unfold Dispatch.packed; rw [hkey]⟩, hx'⟩
    cases context with
    | zero =>
      rcases hstaged.home with ⟨hoperand, -⟩ | ⟨gem, hoperand, -⟩
      · refine ⟨(s.buffers op'.weights.buffer).bytes.drop op'.weights.offset,
          by simp only [State.coefficients, hoperand],
          load (s.buffers op'.weights.buffer).bytes op'.weights.offset op'.weights.length,
          hist.since (hunderway.begun.le hist) ?_, List.take_prefix _ _⟩
        unfold Dispatch.packed
        rw [hkey]
      · exact ⟨s.gems gem, by simp only [State.coefficients, hoperand],
          hread (List.mem_append_left _ (by rw [hoperand]; exact List.mem_singleton_self gem))⟩
    | succ i =>
      have hi : i < op'.replicas.length := hcontext
      exact ⟨s.gems op'.replicas[i].weights.gem,
        by simp only [State.coefficients, List.getElem?_eq_getElem hi, Option.map_some],
        hread (List.mem_append_right _ (List.mem_map.mpr ⟨_, List.getElem_mem hi, rfl⟩))⟩

theorem State.Reads.imp {op : Dispatch} {fresh fresh' : Bytes → Prop} (h : s.Reads op fresh)
    (hfresh : ∀ expected, fresh expected → fresh' expected) : s.Reads op fresh' := by
  intro context hcontext
  obtain ⟨content, hcontent, expected, hexpected, hle⟩ := h context hcontext
  exact ⟨content, hcontent, expected, hfresh expected hexpected, hle⟩

end

/-! ### Three command buffers

They record one dispatch on the same weight binding, the third of them on another context. The first
execution packs and publishes; the others are served from the cache. -/

end IreeRocket.Driver
