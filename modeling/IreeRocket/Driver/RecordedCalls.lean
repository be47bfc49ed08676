import IreeRocket.Driver.DispatchMarks
import Mathlib.Data.List.Nodup

/-!
# A recording as its calls made it

A command buffer is recorded call by call. A call reads what is recorded before it, marks what it reads, and
records its operation last. However many calls follow, a dispatch counts exactly the operands that were
answered with its cube (`recorded_chained`), each at a place of its own (`chainedSites`).
-/

namespace IreeRocket.Driver

open Layout Conv

variable {ω : Type}

/-- A call on a command buffer: the operation it records, and the reads it makes of what is recorded. -/
structure Call (ω : Type) where
  reads : List Read
  op : Recorded ω

/-- `fill_buffer`. -/
def fillBuffer (target : Binding) (pattern : List UInt8) : Except Status (Call ω) := do
  unlessErr (pattern.length ≤ 8) Status.invalidArgument
  return ⟨[], .fill target pattern⟩

/-- `update_buffer`: the bytes are copied as it is recorded. -/
def updateBuffer (sourceBuffer : List UInt8) (sourceOffset : Nat) (target : Binding) : Call ω :=
  ⟨[], .update target ((sourceBuffer.drop sourceOffset).take target.length)⟩

/-- `copy_buffer`. -/
def copyBuffer (source target : Binding) : Call ω := ⟨[.dense source], .copy source target⟩

/-- What a call leaves on the command buffer. -/
def Call.record (ops : List (Recorded ω)) (call : Call ω) : List (Recorded ω) :=
  call.reads.foldl mark ops ++ [call.op]

/-- A command buffer after its calls. -/
def recorded (calls : List (Call ω)) : List (Recorded ω) := calls.foldl Call.record []

/-- What a call finds recorded, up to the marks. -/
def before (calls : List (Call ω)) (n : Nat) : List (Recorded ω) := (calls.take n).map Call.op

variable {ops ops' : List (Recorded ω)} {calls : List (Call ω)} {call : Call ω} {i n : Nat}

/-! ### Reads answered with a cube -/

/-- A lookup that finds a cube: its producer wrote the whole of what is read, and nothing wrote over it
since. -/
structure Chained (ops : List (Recorded ω)) (binding : Binding) (consumer : CubeGeometry)
    (cube : OutputCube) (i : Nat) (want : Nat × Nat) (record : DispatchRecord ω) : Prop where
  producer : ops[i]? = some (.dispatch record)
  published : record.outputCube = some cube
  wanted : dmaRange binding.buffer binding.offset (consumer.pixelCount * consumer.bytesPerPixel) = some want
  dense : dmaRange cube.denseBuffer cube.denseOffset
    (cube.geometry.pixelCount * cube.geometry.bytesPerPixel) = some want
  last : lastWriter ops want = some i
  identity : chainIdentity cube.geometry consumer = .ok ()

theorem chainableCube_chained {binding : Binding} {consumer : CubeGeometry} {declared : Bool}
    {cube : OutputCube} {counted : List (Recorded ω)}
    (h : chainableCube ops binding consumer declared = .ok (some cube, counted)) :
    ∃ i want record, Chained ops binding consumer cube i want record ∧ counted = countReader ops i := by
  unfold chainableCube at h
  split_ifs at h
  · cases h
  split at h
  next => cases h
  split at h
  next => cases h
  next want hwant =>
    split at h
    next i record hfound =>
      obtain ⟨j, hlast, hj⟩ := Option.bind_eq_some_iff.mp hfound
      obtain ⟨op, hop, hpair⟩ := Option.map_eq_some_iff.mp hj
      cases hpair
      split at h
      next => cases h
      next found hcube =>
        split_ifs at h with hdense
        · cases h
        split at h
        next => cases h
        next hidentity =>
          cases h
          exact ⟨i, want, record, ⟨hop, hcube, hwant, Decidable.not_not.mp hdense, hlast, hidentity⟩, rfl⟩
    next => cases h

/-- The place of the dispatch whose cube a read is answered with. -/
def chainedTo (ops : List (Recorded ω)) : Read → Option Nat
  | .dense _ => none
  | .chain binding consumer declared =>
    match answer ops (.chain binding consumer declared) with
    | .ok (some _) =>
      (dmaRange binding.buffer binding.offset (consumer.pixelCount * consumer.bytesPerPixel)).bind
        (lastWriter ops)
    | _ => none

theorem answer_chained {binding : Binding} {consumer : CubeGeometry} {declared : Bool} {cube : OutputCube}
    (h : answer ops (.chain binding consumer declared) = .ok (some cube)) :
    ∃ i want record, Chained ops binding consumer cube i want record ∧
      chainedTo ops (.chain binding consumer declared) = some i ∧
      mark ops (.chain binding consumer declared) = countReader ops i := by
  unfold chainedTo
  dsimp only
  rw [h]
  unfold answer at h
  dsimp only at h
  split at h
  next found counted hchain =>
    cases h
    obtain ⟨i, want, record, hchained, rfl⟩ := chainableCube_chained hchain
    refine ⟨i, want, record, hchained, ?_, ?_⟩
    · dsimp only
      rw [hchained.wanted, Option.bind_some, hchained.last]
    · unfold mark
      dsimp only
      rw [hchain]
  next => cases h

theorem chainedTo_none {binding : Binding} {consumer : CubeGeometry} {declared : Bool}
    (h : ∀ cube, answer ops (.chain binding consumer declared) ≠ .ok (some cube)) :
    chainedTo ops (.chain binding consumer declared) = none := by
  unfold chainedTo
  dsimp only
  cases hanswer : answer ops (.chain binding consumer declared) with
  | error stop => rfl
  | ok found =>
    cases found with
    | none => rfl
    | some cube => exact absurd hanswer (h cube)

theorem chainedTo_some {read : Read} (h : chainedTo ops read = some i) :
    ∃ binding consumer declared cube want record, read = .chain binding consumer declared ∧
      answer ops read = .ok (some cube) ∧ Chained ops binding consumer cube i want record := by
  cases read with
  | dense binding => cases h
  | chain binding consumer declared =>
    by_cases hfound : ∃ cube, answer ops (.chain binding consumer declared) = .ok (some cube)
    · obtain ⟨cube, hanswer⟩ := hfound
      obtain ⟨j, want, record, hchained, hj, -⟩ := answer_chained hanswer
      obtain rfl : j = i := Option.some.inj (hj.symm.trans h)
      exact ⟨binding, consumer, declared, cube, want, record, rfl, hanswer, hchained⟩
    · rw [chainedTo_none (not_exists.mp hfound)] at h
      cases h

theorem Same.chainedTo (h : Same ops ops') (read : Read) : chainedTo ops read = chainedTo ops' read := by
  cases read with
  | dense binding => rfl
  | chain binding consumer declared =>
    have hlast : Driver.lastWriter ops = Driver.lastWriter ops' := funext h.lastWriter
    unfold Driver.chainedTo
    dsimp only
    rw [h.answer, hlast]

/-! ### What a dispatch counts -/

/-- The chained readers an operation has counted. -/
def Recorded.chained : Recorded ω → Nat
  | .dispatch record => record.chainedReaders
  | _ => 0

theorem chained_noteDenseRead (ops : List (Recorded ω)) (binding : Binding) :
    (noteDenseRead ops binding).map Recorded.chained = ops.map Recorded.chained := by
  unfold noteDenseRead
  cases dmaRange binding.buffer binding.offset binding.length with
  | none => rfl
  | some read =>
    dsimp only
    rw [List.map_map]
    refine List.map_congr_left fun op _ => ?_
    cases op with
    | fill | update | copy => rfl
    | dispatch record =>
      dsimp only [Function.comp_apply]
      split_ifs <;> rfl

/-- A read counts one more reader of the dispatch it is chained to. -/
theorem chained_mark (ops : List (Recorded ω)) (read : Read) (i : Nat) :
    ((mark ops read)[i]?).map Recorded.chained =
      (ops[i]?).map fun op => op.chained + if chainedTo ops read = some i then 1 else 0 := by
  have hunmarked : chainedTo ops read = none → (mark ops read).map Recorded.chained = ops.map Recorded.chained →
      ((mark ops read)[i]?).map Recorded.chained =
        (ops[i]?).map fun op => op.chained + if chainedTo ops read = some i then 1 else 0 := by
    intro hnone hmap
    rw [← List.getElem?_map, hmap, List.getElem?_map, hnone]
    rfl
  cases read with
  | dense binding => exact hunmarked rfl (chained_noteDenseRead ops binding)
  | chain binding consumer declared =>
    by_cases hfound : ∃ cube, answer ops (.chain binding consumer declared) = .ok (some cube)
    · obtain ⟨cube, hanswer⟩ := hfound
      obtain ⟨j, want, record, hchained, hto, hmark⟩ := answer_chained hanswer
      rw [hmark, hto]
      unfold countReader
      rw [List.getElem?_modify]
      by_cases hij : j = i
      · subst hij
        rw [hchained.producer]
        simp [Recorded.chained]
      · simp [hij]
    · have hnone := not_exists.mp hfound
      exact hunmarked (chainedTo_none hnone) (congrArg _ ((mark_eq_iff _).mpr hnone))

theorem same_marks (ops : List (Recorded ω)) (reads : List Read) : Same (reads.foldl mark ops) ops := by
  induction reads generalizing ops with
  | nil => rfl
  | cons read reads ih => exact (ih (mark ops read)).trans (mark_marks ops read).1

theorem length_marks (ops : List (Recorded ω)) (reads : List Read) :
    (reads.foldl mark ops).length = ops.length := by
  simpa using congrArg List.length (same_marks ops reads)

theorem chained_marks (ops : List (Recorded ω)) (reads : List Read) (i : Nat) :
    ((reads.foldl mark ops)[i]?).map Recorded.chained =
      (ops[i]?).map fun op => op.chained + reads.countP fun read => chainedTo ops read = some i := by
  induction reads generalizing ops with
  | nil => simp
  | cons read reads ih =>
    have hsame := fun next => (mark_marks ops read).1.chainedTo next
    rw [List.foldl_cons, ih (mark ops read)]
    simp only [hsame]
    have hmark := chained_mark ops read i
    have hcount : (read :: reads).countP (fun read => chainedTo ops read = some i) =
        reads.countP (fun read => chainedTo ops read = some i) +
          if chainedTo ops read = some i then 1 else 0 := by
      rw [List.countP_cons]
      congr 1
      simp
    rw [hcount]
    cases hop : ops[i]? with
    | none =>
      rw [hop, Option.map_none, Option.map_eq_none_iff] at hmark
      rw [hmark]
      rfl
    | some op =>
      rw [hop, Option.map_some] at hmark
      obtain ⟨op', hop', hchained⟩ := Option.map_eq_some_iff.mp hmark
      rw [hop', Option.map_some, Option.map_some, hchained]
      congr 1
      omega

/-! ### Calls -/

/-- An operation is recorded without a mark. -/
def Call.Fresh (call : Call ω) : Prop := call.op.bare = call.op

theorem Call.Fresh.chained (h : call.Fresh) : call.op.chained = 0 := by
  rw [← h]
  cases call.op <;> rfl

theorem length_before (calls : List (Call ω)) (n : Nat) : (before calls n).length = min n calls.length := by
  unfold before
  rw [List.length_map, List.length_take]

theorem chainedTo_lt {read : Read} (h : chainedTo ops read = some i) : i < ops.length := by
  obtain ⟨_, _, _, _, _, _, _, _, hchained⟩ := chainedTo_some h
  exact (List.getElem?_eq_some_iff.mp hchained.producer).1

theorem recorded_append (calls : List (Call ω)) (call : Call ω) :
    recorded (calls ++ [call]) = call.reads.foldl mark (recorded calls) ++ [call.op] := by
  unfold recorded
  rw [List.foldl_append]
  rfl

/-- Up to the marks, a recording is the operations of its calls. -/
theorem recorded_same (calls : List (Call ω)) : Same (recorded calls) (calls.map Call.op) := by
  induction calls using List.reverseRecOn with
  | nil => rfl
  | append_singleton calls call ih =>
    rw [recorded_append]
    unfold Same
    rw [List.map_append, List.map_append, List.map_append]
    exact congrArg (· ++ [call.op.bare]) ((same_marks _ _).trans ih)

theorem length_recorded (calls : List (Call ω)) : (recorded calls).length = calls.length := by
  simpa using congrArg List.length (recorded_same calls)

/-- The reads of call `n` that are chained to operation `i`, by their places. -/
def sitesOf (ops : List (Recorded ω)) (call : Call ω) (n i : Nat) : List (Nat × Nat) :=
  (call.reads.zipIdx.filter fun (read, _) => chainedTo ops read = some i).map fun (_, j) => (n, j)

/-- The reads of every call that are chained to operation `i`. -/
def chainedSites (calls : List (Call ω)) (i : Nat) : List (Nat × Nat) :=
  calls.zipIdx.flatMap fun (call, n) => sitesOf (before calls n) call n i

theorem mem_sitesOf {site : Nat × Nat} : site ∈ sitesOf ops call n i ↔
    site.1 = n ∧ ∃ read, call.reads[site.2]? = some read ∧ chainedTo ops read = some i := by
  obtain ⟨n', j⟩ := site
  unfold sitesOf
  simp only [List.mem_map, List.mem_filter, decide_eq_true_eq, Prod.mk.injEq, Prod.exists]
  constructor
  · rintro ⟨read, j', ⟨hmem, hto⟩, rfl, rfl⟩
    exact ⟨rfl, read, List.mem_zipIdx_iff_getElem?.mp hmem, hto⟩
  · rintro ⟨rfl, read, hread, hto⟩
    exact ⟨read, j, ⟨List.mem_zipIdx_iff_getElem?.mpr hread, hto⟩, rfl, rfl⟩

theorem mem_chainedSites {site : Nat × Nat} : site ∈ chainedSites calls i ↔
    ∃ call read, calls[site.1]? = some call ∧ call.reads[site.2]? = some read ∧
      chainedTo (before calls site.1) read = some i := by
  unfold chainedSites
  simp only [List.mem_flatMap, mem_sitesOf, Prod.exists]
  constructor
  · rintro ⟨call, n, hmem, rfl, read, hread, hto⟩
    exact ⟨call, read, List.mem_zipIdx_iff_getElem?.mp hmem, hread, hto⟩
  · rintro ⟨call, read, hcall, hread, hto⟩
    exact ⟨call, site.1, List.mem_zipIdx_iff_getElem?.mpr hcall, rfl, read, hread, hto⟩

theorem nodup_sitesOf (ops : List (Recorded ω)) (call : Call ω) (n i : Nat) :
    (sitesOf ops call n i).Nodup := by
  have hplaces : (call.reads.zipIdx.map Prod.snd).Nodup := by
    rw [List.zipIdx_map_snd]
    exact List.nodup_range'
  have hkept : ((call.reads.zipIdx.filter fun (read, _) => chainedTo ops read = some i).map Prod.snd).Nodup :=
    hplaces.sublist (List.filter_sublist.map Prod.snd)
  unfold sitesOf
  have hpairs := hkept.map (f := fun j => (n, j)) fun _ _ h => (Prod.mk.inj h).2
  rwa [List.map_map] at hpairs

theorem length_filter_zipIdx {α : Type} (p : α → Prop) [DecidablePred p] (l : List α) :
    (l.zipIdx.filter fun (a, _) => p a).length = l.countP fun a => p a := by
  have hplaces : l = l.zipIdx.map Prod.fst := by simp
  conv_rhs => rw [hplaces, List.countP_map]
  exact List.countP_eq_length_filter.symm

theorem length_sitesOf (ops : List (Recorded ω)) (call : Call ω) (n i : Nat) :
    (sitesOf ops call n i).length = call.reads.countP fun read => chainedTo ops read = some i := by
  unfold sitesOf
  rw [List.length_map]
  exact length_filter_zipIdx (fun read => chainedTo ops read = some i) call.reads

theorem chainedSites_append (calls : List (Call ω)) (call : Call ω) (i : Nat) :
    chainedSites (calls ++ [call]) i =
      chainedSites calls i ++ sitesOf (calls.map Call.op) call calls.length i := by
  unfold chainedSites
  rw [List.zipIdx_append, List.flatMap_append]
  congr 1
  · refine List.flatMap_congr fun pair hmem => ?_
    obtain ⟨earlier, n⟩ := pair
    have hn := (List.getElem?_eq_some_iff.mp (List.mem_zipIdx_iff_getElem?.mp hmem)).1
    unfold before
    dsimp only
    rw [List.take_append_of_le_length hn.le]
  · simp [before]

theorem nodup_chainedSites (calls : List (Call ω)) (i : Nat) : (chainedSites calls i).Nodup := by
  induction calls using List.reverseRecOn with
  | nil => exact List.nodup_nil
  | append_singleton calls call ih =>
    rw [chainedSites_append]
    refine ih.append (nodup_sitesOf _ _ _ _) fun site hleft hright => ?_
    obtain ⟨earlier, -, hearlier, -⟩ := mem_chainedSites.mp hleft
    have hlt := (List.getElem?_eq_some_iff.mp hearlier).1
    rw [(mem_sitesOf.mp hright).1] at hlt
    exact absurd hlt (lt_irrefl _)

/-- **What a dispatch counts**: exactly the reads answered with its cube. -/
theorem recorded_chained (hfresh : ∀ call ∈ calls, call.Fresh) (i : Nat) :
    ((recorded calls)[i]?).map Recorded.chained = (calls[i]?).map fun _ => (chainedSites calls i).length := by
  induction calls using List.reverseRecOn with
  | nil => rfl
  | append_singleton calls call ih =>
    have hearlier := ih fun earlier hmem => hfresh earlier (List.mem_append_left _ hmem)
    have hsame := (recorded_same calls).chainedTo
    rw [recorded_append, chainedSites_append, List.length_append, length_sitesOf]
    rcases Nat.lt_trichotomy i calls.length with hlt | rfl | hgt
    · have hmarked : i < (call.reads.foldl mark (recorded calls)).length := by
        rw [length_marks, length_recorded]
        exact hlt
      rw [List.getElem?_append_left hmarked, List.getElem?_append_left hlt, chained_marks]
      simp only [hsame]
      rw [List.getElem?_eq_getElem hlt, Option.map_some] at hearlier ⊢
      obtain ⟨op, hop, hchained⟩ := Option.map_eq_some_iff.mp hearlier
      rw [hop, Option.map_some, hchained]
    · -- the new operation has counted nobody, and nobody was chained to it
      have hnobody : chainedSites calls calls.length = [] :=
        List.eq_nil_iff_forall_not_mem.mpr fun site hmem => by
          obtain ⟨earlier, read, hcall, -, hto⟩ := mem_chainedSites.mp hmem
          have hlt := (List.getElem?_eq_some_iff.mp hcall).1
          have hplace := chainedTo_lt hto
          rw [length_before] at hplace
          omega
      have hreads : call.reads.countP (fun read => chainedTo (calls.map Call.op) read = some calls.length) = 0 :=
        List.countP_eq_zero.mpr fun read _ hto => by
          have hplace := chainedTo_lt (of_decide_eq_true hto)
          rw [List.length_map] at hplace
          omega
      have hend : (call.reads.foldl mark (recorded calls)).length = calls.length := by
        rw [length_marks, length_recorded]
      rw [hnobody, hreads, List.getElem?_append_right hend.le, hend, List.getElem?_append_right le_rfl,
        Nat.sub_self]
      exact congrArg some (hfresh call (by simp)).chained
    · rw [List.getElem?_eq_none (by simp [length_marks, length_recorded]; omega),
        List.getElem?_eq_none (by simp; omega)]
      rfl

/-! ### What the driver accepts -/

/-- What `cubeGeometry` builds. -/
def Built (g : CubeGeometry) : Prop :=
  ∃ kind elementBytes width height channels, cubeGeometry kind elementBytes width height channels = .ok g

/-- A record as a dispatch leaves it: nobody has read its cube yet, and its cube is a cube of what it
compacts. -/
structure Promised (record : DispatchRecord ω) : Prop where
  chained : record.chainedReaders = 0
  unseen : record.denseReadSeen = false
  published : ∀ cube, record.outputCube = some cube → Built cube.geometry ∧
    recordedWriteExtent (.dispatch record) = dmaRange cube.denseBuffer cube.denseOffset
      (cube.geometry.pixelCount * cube.geometry.bytesPerPixel)

/-- A lookup is for the cube of a feature map. -/
def Read.OfFeatureMap : Read → Prop
  | .chain _ consumer _ => Built consumer
  | .dense _ => True

/-- A call the driver accepts. A copy's two spans are of one length. -/
inductive Accepted : Call ω → Prop
  | fill {target pattern call} (h : fillBuffer target pattern = .ok call) : Accepted call
  | update (source : List UInt8) (offset : Nat) (target : Binding) :
    Accepted (updateBuffer source offset target)
  | copy {source target : Binding} (h : source.length = target.length) : Accepted (copyBuffer source target)
  | dispatch {reads : List Read} {record : DispatchRecord ω} (hreads : ∀ read ∈ reads, read.OfFeatureMap)
    (h : Promised record) : Accepted ⟨reads, .dispatch record⟩

theorem fillBuffer_ok {target : Binding} {pattern : List UInt8}
    (h : fillBuffer target pattern = .ok call) : call = ⟨[], .fill target pattern⟩ := by
  unfold fillBuffer at h
  simp only [bind_ok, pure_ok] at h
  obtain ⟨-, -, rfl⟩ := h
  rfl

theorem Accepted.fresh (h : Accepted call) : call.Fresh := by
  cases h with
  | fill h =>
    obtain rfl := fillBuffer_ok h
    rfl
  | update | copy => rfl
  | dispatch _ h =>
    unfold Call.Fresh Recorded.bare
    dsimp only
    rw [← h.chained, ← h.unseen]

theorem Accepted.published (h : Accepted call) {cube : OutputCube} (hcube : call.op.cube = some cube) :
    Built cube.geometry ∧
      recordedWriteExtent call.op = dmaRange cube.denseBuffer cube.denseOffset
        (cube.geometry.pixelCount * cube.geometry.bytesPerPixel) := by
  cases h with
  | fill h =>
    obtain rfl := fillBuffer_ok h
    cases hcube
  | update | copy => cases hcube
  | dispatch _ h => exact h.published cube hcube

theorem Accepted.reads (h : Accepted call) : ∀ read ∈ call.reads, read.OfFeatureMap := by
  intro read hread
  cases h with
  | fill h =>
    obtain rfl := fillBuffer_ok h
    cases hread
  | update => cases hread
  | copy =>
    obtain rfl := List.mem_singleton.mp hread
    trivial
  | dispatch hreads _ => exact hreads read hread

theorem extent_of_bare {op op' : Recorded ω} (h : op.bare = op'.bare) :
    recordedWriteExtent op = recordedWriteExtent op' := by
  rw [← recordedWriteExtent_bare op, h, recordedWriteExtent_bare]

theorem cube_of_bare {op op' : Recorded ω} (h : op.bare = op'.bare) : op.cube = op'.cube := by
  rw [← cube_bare op, h, cube_bare]

/-- A recorded operation is the one of its call, up to the marks. -/
theorem recorded_call {op : Recorded ω} (h : (recorded calls)[i]? = some op) :
    ∃ call, calls[i]? = some call ∧ op.bare = call.op.bare := by
  have hsame := (recorded_same calls).getElem? i
  rw [h, List.getElem?_map] at hsame
  obtain ⟨op', hop', hbare⟩ := Option.map_eq_some_iff.mp hsame.symm
  obtain ⟨call, hcall, rfl⟩ := Option.map_eq_some_iff.mp hop'
  exact ⟨call, hcall, hbare.symm⟩

/-- A dispatch of accepted calls counts exactly the reads chained to it. -/
theorem chainedReaders_eq {record : DispatchRecord ω} (haccepted : ∀ call ∈ calls, Accepted call)
    (h : (recorded calls)[i]? = some (.dispatch record)) :
    record.chainedReaders = (chainedSites calls i).length := by
  have hcount := recorded_chained (fun call hmem => (haccepted call hmem).fresh) i
  obtain ⟨call, hcall, -⟩ := recorded_call h
  rw [h, hcall] at hcount
  exact Option.some.inj hcount

end IreeRocket.Driver
