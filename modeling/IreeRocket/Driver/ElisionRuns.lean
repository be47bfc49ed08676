import IreeRocket.Driver.ChainIdentity
import IreeRocket.Driver.RecordedCalls
import IreeRocket.Lib.Deferred

/-!
# Chained cubes and skipped compactions

Executing a command buffer runs its operations in order. A dispatch that was recorded with a chained operand
reads its producer's cube from the producer's scratch, and a dispatch whose readers all chained does not
compact its output into its binding (`compaction_elidable`). Over any history of executions, host reads and
host writes this makes no difference to what anybody reads, where the compiler's words are truthful
(`elided_eq_plain`): the plain run packs every operand from memory and compacts after every dispatch.

Executions follow one another. What the hardware computes is a parameter (`Hardware`), and so is the
compaction of a dispatch that publishes no cube. Coefficients are read as the dense bytes they are.
-/

namespace IreeRocket.Driver

open Layout Conv TensorLayout

variable {ω : Type}

/-! ### What is read and written -/

/-- What an operand shows the hardware: the bytes of a binding, or the places of a cube it reads. -/
inductive Seen
  | dense (bytes : Bytes)
  | packed (places : List (Option UInt8))
  deriving DecidableEq

def Seen.bytes : Seen → Bytes
  | .dense bytes => bytes
  | .packed _ => []

/-- What an operation saw, and the bytes it makes of it: the cube of a dispatch. -/
abbrev Outcome := List Seen × Bytes

structure Hardware (ω : Type) where
  output : DispatchRecord ω → List Seen → Bytes
  /-- The dense output of a dispatch that publishes no cube. -/
  dense : DispatchRecord ω → Bytes → Bytes
  output_length : ∀ record cube seen, record.outputCube = some cube →
    (output record seen).length = cubeBytes cube.geometry

/-- The bytes of a range, as a mapping of its buffer shows them. -/
def bytesAt (memory : Nat → UInt8) (range : Nat × Nat) : Bytes :=
  (List.range (range.2 - range.1)).map fun k => memory (range.1 + k)

def InRange (range : Nat × Nat) (k : Nat) : Prop := range.1 ≤ k ∧ k < range.2

/-- The places of a cube a consumer reads: the lanes of its live pixels, on every surface. -/
def places (consumer : CubeGeometry) (cube : Bytes) : List (Option UInt8) :=
  (List.range consumer.packedSurfaces).flatMap fun s =>
    (List.range consumer.pixelCount).flatMap fun pixel =>
      (List.range 16).map fun lane => cube[cubeOffset consumer.surfacePixelCount s pixel lane]?

/-- A consumer's own packing of dense bytes. -/
def repacked (consumer : CubeGeometry) (dense : Bytes) : Bytes :=
  match applyInputPacking (inputPacking consumer) dense (List.replicate (cubeBytes consumer) 0) with
  | .ok out => out
  | .error _ => []

/-- Where a read stands in the program. -/
inductive Site
  | operand (buffer call read : Nat)
  | host
  deriving DecidableEq

/-- An operand and an operation as they are executed: cells are bytes of memory, and a slot is the scratch of
a cube. -/
abbrev ExecutedOperand := Deferred.Operand Nat UInt8 Outcome Seen Nat Site

abbrev ExecutedOp := Deferred.Op Nat UInt8 Outcome Seen Nat Site

/-- The operand a read gives. A lookup that finds no cube gives none: its dense read follows. -/
def operandOf (ops : List (Recorded ω)) (site : Site) :
    Read → Option ExecutedOperand
  | .dense binding => (dmaRange binding.buffer binding.offset binding.length).map fun range =>
      { site
        cells := InRange range
        view := fun memory => .dense (bytesAt memory range)
        kept := none }
  | .chain binding consumer declared =>
    match answer ops (.chain binding consumer declared) with
    | .ok (some cube) =>
      (dmaRange binding.buffer binding.offset (consumer.pixelCount * consumer.bytesPerPixel)).map fun want =>
        { site
          cells := InRange want
          view := fun memory => .packed (places consumer (repacked consumer (bytesAt memory want)))
          kept := some (cube.handle, fun outcome => .packed (places consumer outcome.2)) }
    | _ => none

namespace Recorded

/-- What an operation makes of what it sees. -/
def result (hardware : Hardware ω) (seen : List Seen) : Recorded ω → Bytes
  | .dispatch record => hardware.output record seen
  | .copy _ _ => (seen.head?.map Seen.bytes).getD []
  | .fill _ _ | .update _ _ => []

/-- The bytes it leaves in its write extent. -/
def written (hardware : Hardware ω) (result : Bytes) : Recorded ω → Bytes
  | .fill target pattern => (List.range target.length).map fun k => pattern.getD (k % pattern.length) 0
  | .update _ source => source
  | .copy _ _ => result
  | .dispatch record => match record.outputCube with
    | some cube => compacted cube.geometry result
    | none => hardware.dense record result

/-- Whether executing it leaves its dense output out. -/
def elided : Recorded ω → Bool
  | .dispatch record => record.outputCompaction.isSome &&
      compactionElidable record.layout.packedReaders record.chainedReaders record.denseReadSeen
  | _ => false

end Recorded

/-- The execution of an operation with its operands. -/
def opOf (hardware : Hardware ω) (operands : List ExecutedOperand)
    (op : Recorded ω) : ExecutedOp where
  operands := operands
  compute seen := (seen, op.result hardware seen)
  writes k := (recordedWriteExtent op).any fun range => range.1 ≤ k && k < range.2
  store outcome k := (recordedWriteExtent op).elim 0 fun range =>
    (op.written hardware outcome.2).getD (k - range.1) 0
  slot := op.cube.map OutputCube.handle
  skipped := op.elided

/-- The operands of call `i`. -/
def operandsOf (buffer : Nat) (calls : List (Call ω)) (i : Nat) :
    List ExecutedOperand :=
  (calls[i]?.elim [] Call.reads).zipIdx.filterMap fun (read, j) =>
    operandOf (before calls i) (.operand buffer i j) read

/-- `apply_ops`: the execution of a command buffer. -/
def executed (hardware : Hardware ω) (buffer : Nat) (calls : List (Call ω)) :
    List ExecutedOp :=
  (recorded calls).zipIdx.map fun (op, i) => opOf hardware (operandsOf buffer calls i) op

/-- What happens to the memory: a command buffer is executed, or the host maps a buffer. -/
inductive Event
  | execute (buffer : Nat)
  | hostRead (binding : Binding)
  | hostWrite (target : Binding) (bytes : Bytes)

variable (hardware : Hardware ω) (buffers : Nat → List (Call ω))

def Event.steps : Event → List ExecutedOp
  | .execute buffer => executed hardware buffer (buffers buffer)
  | .hostRead binding =>
    [opOf hardware (operandOf ([] : List (Recorded ω)) .host (.dense binding)).toList
      (.copy binding ⟨none, 0, 0⟩)]
  | .hostWrite target bytes => [opOf hardware [] (.update target bytes)]

def steps (history : List Event) : List ExecutedOp :=
  history.flatMap (Event.steps hardware buffers)

/-- The memory, the scratch of every cube and what every operation saw and made, with cubes read in place
and compactions skipped. -/
def elidedRun (history : List Event) (memory : Nat → UInt8) (scratch : Nat → Option Outcome) :
    Deferred.State Nat UInt8 Outcome Nat :=
  Deferred.runDeferred (steps hardware buffers history) ⟨memory, scratch, []⟩

/-- The same with every operand packed from memory and every output compacted. -/
def plainRun (history : List Event) (memory : Nat → UInt8) (scratch : Nat → Option Outcome) :
    Deferred.State Nat UInt8 Outcome Nat :=
  Deferred.runPlain (steps hardware buffers history) ⟨memory, scratch, []⟩

/-! ### What recording and compiling promise -/

/-- The command buffers of a program: each dispatch keeps its cube in a scratch of its own. -/
structure Prepared (buffers : Nat → List (Call ω)) : Prop where
  accepted : ∀ buffer, ∀ call ∈ buffers buffer, Accepted call
  handles : ∀ (buffer i j : Nat) (call call' : Call ω) (cube cube' : OutputCube),
    (buffers buffer)[i]? = some call → (buffers buffer)[j]? = some call' →
    call.op.cube = some cube → call'.op.cube = some cube' → cube.handle = cube'.handle → i = j
  /-- The scratch of a cube was allocated. -/
  allocated : ∀ (buffer : Nat), ∀ call ∈ buffers buffer, ∀ cube, call.op.cube = some cube →
    ∃ bytes, cube.geometry.storageBytes = .ok bytes

/-- The compiler's words: a dispatch declared to have readers has no more reading sites than it declares,
in the whole program and on the host. -/
def Truthful (history : List Event) : Prop :=
  ∀ earlier buffer later i record, history = earlier ++ .execute buffer :: later →
    (recorded (buffers buffer))[i]? = some (.dispatch record) → 0 < record.layout.packedReaders →
      (Deferred.readingSites (steps hardware buffers history) ((steps hardware buffers earlier).length + i)).encard ≤
        record.layout.packedReaders

/-! ### Geometries -/

/-- A consumer that chains has no larger a cube than its producer. -/
theorem Stored.consumer {producer consumer : CubeGeometry} (h : Stored producer) (hbuilt : Built consumer)
    (hidentity : chainIdentity producer consumer = .ok ()) : Stored consumer := by
  obtain ⟨⟨-, hpacked⟩, -, hstride, hwidth⟩ := chainIdentity_ok.mp hidentity
  refine ⟨hbuilt, ?_⟩
  have hsurfaces : consumer.packedSurfaces ≤ producer.packedSurfaces := by
    unfold CubeGeometry.packedSurfaces
    rw [hpacked, ← hwidth, Nat.ceilDiv_eq_add_pred_div, Nat.ceilDiv_eq_add_pred_div]
    exact Nat.div_le_div_right (by have := h.wellFormed.bytes_le; omega)
  obtain ⟨bytes, hbytes⟩ := h.storage
  have hproduct := someOr_ok.mp hbytes
  simp only [checkedProduct, Option.bind_eq_some_iff] at hproduct
  obtain ⟨surfaces, hsurfaces', total, htotal, -⟩ := hproduct
  obtain ⟨hlt, rfl⟩ := checkedMul_some.mp hsurfaces'
  obtain ⟨hlt', -⟩ := checkedMul_some.mp htotal
  have hle : consumer.surfacePixelCount * consumer.packedSurfaces ≤
      producer.surfacePixelCount * producer.packedSurfaces :=
    hstride ▸ Nat.mul_le_mul_left _ hsurfaces
  refine ⟨consumer.surfacePixelCount * consumer.packedSurfaces * featureAtomBytes, someOr_ok.mpr ?_⟩
  simp only [checkedProduct, Option.bind_eq_some_iff]
  exact ⟨_, checkedMul_some.mpr ⟨hle.trans_lt hlt, rfl⟩, _,
    checkedMul_some.mpr ⟨(Nat.mul_le_mul_right _ hle).trans_lt hlt', rfl⟩, rfl⟩

theorem byteIdentity_of_chain {producer consumer : CubeGeometry} (hp : Stored producer)
    (hc : Stored consumer) (h : chainIdentity producer consumer = .ok ()) : ByteIdentity producer consumer := by
  obtain ⟨⟨-, hpacked⟩, hpixels, hstride, hwidth⟩ := chainIdentity_ok.mp h
  have hcoincide : Coincide producer consumer := .inl ⟨hwidth, hpixels.ge, .inl hstride⟩
  exact (hcoincide.sameAtoms hp.wellFormed hc.wellFormed).byteIdentity hp hc (hpacked ▸ hc.packed_eq)

/-- What a chained consumer finds in its producer's cube is what it would pack. -/
theorem places_chained {producer consumer : CubeGeometry} (hp : Stored producer) (hc : Stored consumer)
    (h : chainIdentity producer consumer = .ok ()) {cube : Bytes} (hcube : cube.length = cubeBytes producer) :
    places consumer cube = places consumer (repacked consumer (compacted producer cube)) := by
  obtain ⟨out, hrun, hsame⟩ := byteIdentity_of_chain hp hc h cube (List.replicate (cubeBytes consumer) 0)
    hcube List.length_replicate
  unfold repacked places
  rw [hrun]
  refine List.flatMap_congr fun s hs => List.flatMap_congr fun pixel hpixel =>
    List.map_congr_left fun lane hlane => ?_
  obtain ⟨byte, hin, hout⟩ := hsame s (List.mem_range.mp hs) pixel (List.mem_range.mp hpixel) lane
    (List.mem_range.mp hlane)
  rw [hin, hout]

/-! ### Ranges -/

variable {ops : List (Recorded ω)} {range want : Nat × Nat} {i j k n : Nat}

theorem bytesAt_congr {memory memory' : Nat → UInt8} (h : ∀ k, InRange range k → memory k = memory' k) :
    bytesAt memory range = bytesAt memory' range := by
  refine List.map_congr_left fun k hk => h _ ⟨Nat.le_add_right _ _, ?_⟩
  have := List.mem_range.mp hk
  omega

/-- The bytes of a range that holds a list. -/
theorem bytesAt_eq {memory : Nat → UInt8} {bytes : Bytes} (hlength : range.1 + bytes.length = range.2)
    (h : ∀ k, InRange range k → memory k = bytes.getD (k - range.1) 0) : bytesAt memory range = bytes := by
  refine List.ext_getElem? fun k => ?_
  unfold bytesAt
  rw [List.getElem?_map]
  by_cases hk : k < bytes.length
  · rw [List.getElem?_range (by omega), Option.map_some, h _ ⟨Nat.le_add_right _ _, by omega⟩,
      Nat.add_sub_cancel_left, List.getD_eq_getElem?_getD, List.getElem?_eq_getElem hk, Option.getD_some]
  · rw [List.getElem?_eq_none (by simp; omega), List.getElem?_eq_none (by omega)]
    rfl

/-- Nothing after the last writer writes over the range. -/
theorem lastWriter_later (h : lastWriter ops want = some i) {op : Recorded ω} (hij : i < j)
    (hop : ops[j]? = some op) : writesOver op want = false := by
  unfold lastWriter at h
  obtain ⟨-, after, earlier, hsplit, hafter⟩ := List.find?_eq_some_iff_append.mp h
  have hrange : List.range ops.length = earlier.reverse ++ i :: after.reverse := by
    rw [← List.reverse_reverse (List.range ops.length), hsplit]
    simp
  have hj : j ∈ earlier.reverse ++ i :: after.reverse :=
    hrange ▸ List.mem_range.mpr (List.getElem?_eq_some_iff.mp hop).1
  have hsorted := hrange ▸ List.pairwise_lt_range (n := ops.length)
  have hin : j ∈ after := by
    rcases List.mem_append.mp hj with hmem | hmem
    · have := (List.pairwise_append.mp hsorted).2.2 j hmem i List.mem_cons_self
      omega
    · rcases List.mem_cons.mp hmem with rfl | hmem
      · exact absurd hij (Nat.lt_irrefl _)
      · exact List.mem_reverse.mp hmem
  have hclear := hafter j hin
  rw [hop] at hclear
  simpa using hclear

theorem writes_opOf {operands : List ExecutedOperand} {op : Recorded ω} :
    (opOf hardware operands op).writes k = true ↔
      ∃ range, recordedWriteExtent op = some range ∧ InRange range k := by
  unfold opOf InRange
  simp [Option.any_eq_true]

/-- What writes a cell of a range writes over the range. -/
theorem writesOver_of_writes {operands : List ExecutedOperand} {op : Recorded ω}
    (hk : InRange want k) (h : (opOf hardware operands op).writes k = true) : writesOver op want = true := by
  obtain ⟨range, hrange, hin⟩ := (writes_opOf hardware).mp h
  unfold InRange at hk hin
  unfold writesOver overlaps
  rw [hrange]
  simp only [Option.any_some, Bool.and_eq_true, decide_eq_true_eq]
  omega

/-! ### Operands -/

/-- A read of memory, or of a producer's cube. -/
theorem operandOf_cases {site : Site} {read : Read} {o : ExecutedOperand}
    (h : operandOf ops site read = some o) :
    (∃ range, o = ⟨site, InRange range, fun memory => .dense (bytesAt memory range), none⟩) ∨
      ∃ binding consumer declared cube i want record, read = .chain binding consumer declared ∧
        Chained ops binding consumer cube i want record ∧ chainedTo ops read = some i ∧ o = ⟨site, InRange want,
          fun memory => .packed (places consumer (repacked consumer (bytesAt memory want))),
          some (cube.handle, fun outcome => .packed (places consumer outcome.2))⟩ := by
  cases read with
  | dense binding =>
    obtain ⟨range, -, rfl⟩ := Option.map_eq_some_iff.mp h
    exact .inl ⟨range, rfl⟩
  | chain binding consumer declared =>
    unfold operandOf at h
    dsimp only at h
    cases hanswer : answer ops (.chain binding consumer declared) with
    | error stop =>
      rw [hanswer] at h
      cases h
    | ok found =>
      rw [hanswer] at h
      cases found with
      | none => cases h
      | some cube =>
        obtain ⟨i, want, record, hchained, hto, -⟩ := answer_chained hanswer
        dsimp only at h
        rw [hchained.wanted, Option.map_some, Option.some.injEq] at h
        exact .inr ⟨binding, consumer, declared, cube, i, want, record, rfl, hchained, hto, h.symm⟩

/-- A read that is chained gives an operand read in place. -/
theorem operandOf_chained (site : Site) {read : Read} (h : chainedTo ops read = some i) :
    ∃ binding consumer declared cube want record, read = .chain binding consumer declared ∧
      Chained ops binding consumer cube i want record ∧ operandOf ops site read = some ⟨site, InRange want,
        fun memory => .packed (places consumer (repacked consumer (bytesAt memory want))),
        some (cube.handle, fun outcome => .packed (places consumer outcome.2))⟩ := by
  obtain ⟨binding, consumer, declared, cube, want, record, rfl, hanswer, hchained⟩ := chainedTo_some h
  refine ⟨binding, consumer, declared, cube, want, record, rfl, hchained, ?_⟩
  unfold operandOf
  dsimp only
  rw [hanswer]
  dsimp only
  rw [hchained.wanted]
  rfl

theorem operandOf_site {site : Site} {read : Read} {o : ExecutedOperand}
    (h : operandOf ops site read = some o) : o.site = site := by
  rcases operandOf_cases h with ⟨range, rfl⟩ | ⟨_, _, _, _, _, _, _, _, _, _, rfl⟩ <;> rfl

variable {hardware buffers} {calls : List (Call ω)} {buffer : Nat} {history earlier later : List Event}
  {event : Event} {op : ExecutedOp} {o : ExecutedOperand}

theorem mem_operandsOf : o ∈ operandsOf buffer calls i ↔ ∃ call j read, calls[i]? = some call ∧
    call.reads[j]? = some read ∧ operandOf (before calls i) (.operand buffer i j) read = some o := by
  unfold operandsOf
  simp only [List.mem_filterMap, Prod.exists]
  constructor
  · rintro ⟨read, j, hmem, ho⟩
    cases hcall : calls[i]? with
    | none =>
      rw [hcall] at hmem
      cases hmem
    | some call =>
      rw [hcall] at hmem
      exact ⟨call, j, read, rfl, List.mem_zipIdx_iff_getElem?.mp hmem, ho⟩
  · rintro ⟨call, j, read, hcall, hread, ho⟩
    refine ⟨read, j, ?_, ho⟩
    rw [hcall]
    exact List.mem_zipIdx_iff_getElem?.mpr hread

theorem getElem?_executed (i : Nat) : (executed hardware buffer calls)[i]? =
    ((recorded calls)[i]?).map (opOf hardware (operandsOf buffer calls i)) := by
  unfold executed
  rw [List.getElem?_map, List.getElem?_zipIdx, Option.map_map]
  simp [Function.comp_def]

/-- An operation of a history is an operation of one of its events. -/
theorem getElem?_steps (h : (steps hardware buffers history)[n]? = some op) :
    ∃ earlier event later i, history = earlier ++ event :: later ∧
      n = (steps hardware buffers earlier).length + i ∧ (event.steps hardware buffers)[i]? = some op := by
  induction history generalizing n with
  | nil => cases h
  | cons event history ih =>
    unfold steps at h
    rw [List.flatMap_cons] at h
    by_cases hn : n < (event.steps hardware buffers).length
    · rw [List.getElem?_append_left hn] at h
      exact ⟨[], event, history, n, rfl, (Nat.zero_add n).symm, h⟩
    · rw [List.getElem?_append_right (Nat.le_of_not_lt hn)] at h
      obtain ⟨earlier, event', later, i, rfl, hi, hop⟩ := ih h
      refine ⟨event :: earlier, event', later, i, rfl, ?_, hop⟩
      unfold steps at hi ⊢
      rw [List.flatMap_cons, List.length_append]
      omega

theorem steps_split (hardware : Hardware ω) (buffers : Nat → List (Call ω)) (earlier later : List Event)
    (event : Event) : steps hardware buffers (earlier ++ event :: later) =
    steps hardware buffers earlier ++ (event.steps hardware buffers ++ steps hardware buffers later) := by
  unfold steps
  rw [List.flatMap_append, List.flatMap_cons]

theorem getElem?_steps_split (earlier later : List Event) (hi : i < (event.steps hardware buffers).length) :
    (steps hardware buffers (earlier ++ event :: later))[(steps hardware buffers earlier).length + i]? =
      (event.steps hardware buffers)[i]? := by
  rw [steps_split, List.getElem?_append_right (Nat.le_add_right _ _), Nat.add_sub_cancel_left,
    List.getElem?_append_left hi]

theorem take_steps (earlier later : List Event) (hi : i ≤ (event.steps hardware buffers).length) :
    (steps hardware buffers (earlier ++ event :: later)).take ((steps hardware buffers earlier).length + i) =
      steps hardware buffers earlier ++ (event.steps hardware buffers).take i := by
  rw [steps_split, List.take_length_add_append, List.take_append_of_le_length hi]

/-- Every operand of a history comes from a read: of an executed command buffer, or of the host. -/
theorem reads_cases (h : Deferred.Reads (steps hardware buffers history) n o) :
    (∃ earlier buffer later i call j read, history = earlier ++ .execute buffer :: later ∧
      n = (steps hardware buffers earlier).length + i ∧ (buffers buffer)[i]? = some call ∧
      call.reads[j]? = some read ∧
      operandOf (before (buffers buffer) i) (.operand buffer i j) read = some o) ∨
    ∃ binding, .hostRead binding ∈ history ∧
      operandOf ([] : List (Recorded ω)) .host (.dense binding) = some o := by
  obtain ⟨op, hop, ho⟩ := h
  obtain ⟨earlier, event, later, i, rfl, hn, hi⟩ := getElem?_steps hop
  cases event with
  | execute buffer =>
    change (executed hardware buffer (buffers buffer))[i]? = some op at hi
    rw [getElem?_executed] at hi
    obtain ⟨recordedOp, -, rfl⟩ := Option.map_eq_some_iff.mp hi
    obtain ⟨call, j, read, hcall, hread, hgives⟩ := mem_operandsOf.mp ho
    exact .inl ⟨earlier, buffer, later, i, call, j, read, rfl, hn, hcall, hread, hgives⟩
  | hostRead binding =>
    obtain rfl := List.mem_singleton.mp (List.mem_of_getElem? hi)
    exact .inr ⟨binding, by simp, Option.mem_toList.mp ho⟩
  | hostWrite target bytes =>
    obtain rfl := List.mem_singleton.mp (List.mem_of_getElem? hi)
    cases ho

theorem operandOf_view {site : Site} {read : Read} (h : operandOf ops site read = some o)
    {memory memory' : Nat → UInt8} (hcells : ∀ k, o.cells k → memory k = memory' k) :
    o.view memory = o.view memory' := by
  rcases operandOf_cases h with ⟨range, rfl⟩ | ⟨_, consumer, _, _, _, want, _, _, _, _, rfl⟩
  · exact congrArg Seen.dense (bytesAt_congr hcells)
  · exact congrArg (fun bytes => Seen.packed (places consumer (repacked consumer bytes))) (bytesAt_congr hcells)

/-! ### The producer of a chained read -/

theorem before_call {op : Recorded ω} (h : (before calls n)[i]? = some op) :
    i < n ∧ ∃ call, calls[i]? = some call ∧ call.op = op := by
  unfold before at h
  rw [List.getElem?_map] at h
  obtain ⟨call, hcall, rfl⟩ := Option.map_eq_some_iff.mp h
  have hlt := (List.getElem?_eq_some_iff.mp hcall).1
  rw [List.length_take] at hlt
  rw [List.getElem?_take_of_lt (by omega)] at hcall
  exact ⟨by omega, call, hcall, rfl⟩

variable {binding : Binding} {consumer : CubeGeometry} {cube : OutputCube} {record : DispatchRecord ω}

/-- The producer of a read that call `n` chained: its recorded dispatch, which wrote what is read last, and
whose scratch nobody took since. -/
structure ProducedBy (hardware : Hardware ω) (buffer : Nat) (calls : List (Call ω)) (n i : Nat)
    (cube : OutputCube) (want : Nat × Nat) (record : DispatchRecord ω) : Prop where
  lt : i < n
  recorded : (recorded calls)[i]? = some (.dispatch record)
  published : record.outputCube = some cube
  extent : recordedWriteExtent (.dispatch record) = some want
  stored : Stored cube.geometry
  length : want.1 + cube.geometry.pixelCount * cube.geometry.bytesPerPixel = want.2
  slot : Deferred.Last ((executed hardware buffer calls).take n) (·.slot = some cube.handle) i
  cells : ∀ k, InRange want k → Deferred.LastWriter ((executed hardware buffer calls).take n) k i

theorem Chained.producedBy (hardware : Hardware ω) (hprepared : Prepared buffers) (hcalls : buffers buffer = calls)
    (hn : n ≤ calls.length) (h : Chained (before calls n) binding consumer cube i want record) :
    ∃ record', ProducedBy hardware buffer calls n i cube want record' := by
  obtain ⟨hlt, call, hcall, hop⟩ := before_call h.producer
  obtain ⟨recordedOp, hrecorded⟩ : ∃ op, (recorded calls)[i]? = some op :=
    ⟨_, List.getElem?_eq_getElem (by rw [length_recorded]; omega)⟩
  obtain ⟨call', hcall', hbare⟩ := recorded_call hrecorded
  obtain rfl : call' = call := Option.some.inj (hcall'.symm.trans hcall)
  rw [hop] at hbare
  cases recordedOp with
  | fill | update | copy => cases hbare
  | dispatch record' =>
    have hmem := List.mem_of_getElem? hcall
    have hcallCube : call'.op.cube = some cube := by
      rw [hop]
      exact h.published
    have hcube : (Recorded.dispatch record').cube = some cube := by
      rw [cube_of_bare hbare]
      exact h.published
    obtain ⟨hbuilt, hextent⟩ := (hprepared.accepted buffer call' (hcalls ▸ hmem)).published hcallCube
    have hwrote : recordedWriteExtent (.dispatch record') = some want := by
      rw [extent_of_bare hbare, ← hop, hextent, h.dense]
    have htake : ((executed hardware buffer calls).take n)[i]? =
        some (opOf hardware (operandsOf buffer calls i) (.dispatch record')) := by
      rw [List.getElem?_take_of_lt hlt, getElem?_executed, hrecorded]
      rfl
    -- an operation after the producer is one of a later call
    have hlater : ∀ j op, i < j → ((executed hardware buffer calls).take n)[j]? = some op →
        ∃ later call'', (before calls n)[j]? = some call''.op ∧ calls[j]? = some call'' ∧
          later.bare = call''.op.bare ∧ op = opOf hardware (operandsOf buffer calls j) later := by
      intro j op hij hj
      have hjn : j < n := by
        have := (List.getElem?_eq_some_iff.mp hj).1
        rw [List.length_take] at this
        omega
      rw [List.getElem?_take_of_lt hjn, getElem?_executed] at hj
      obtain ⟨later, hlater, rfl⟩ := Option.map_eq_some_iff.mp hj
      obtain ⟨call'', hcall'', hbare''⟩ := recorded_call hlater
      refine ⟨later, call'', ?_, hcall'', hbare'', rfl⟩
      unfold before
      rw [List.getElem?_map, List.getElem?_take_of_lt hjn, hcall'']
      rfl
    refine ⟨record', ⟨hlt, hrecorded, hcube, hwrote, ?_, ?_, ⟨⟨_, htake, ?_⟩, ?_⟩,
      fun k hk => ⟨⟨_, htake, ?_⟩, ?_⟩⟩⟩
    · exact ⟨hbuilt, hprepared.allocated buffer call' (hcalls ▸ hmem) cube hcallCube⟩
    · obtain ⟨base, -, hbase⟩ := Option.map_eq_some_iff.mp h.dense
      rw [← hbase]
    · exact congrArg (Option.map OutputCube.handle) hcube
    · intro j op hij hj hslot
      obtain ⟨later, call'', -, hcall'', hbare'', rfl⟩ := hlater j op hij hj
      obtain ⟨cube'', hcube'', hhandle⟩ := Option.map_eq_some_iff.mp hslot
      rw [cube_of_bare hbare''] at hcube''
      have hplace := hprepared.handles buffer j i call'' call' cube'' cube (hcalls ▸ hcall'')
        (hcalls ▸ hcall) hcube'' hcallCube hhandle
      omega
    · exact (writes_opOf hardware).mpr ⟨want, hwrote, hk⟩
    · intro j op hij hj hwrites
      obtain ⟨later, call'', hbefore, -, hbare'', rfl⟩ := hlater j op hij hj
      have hover := writesOver_of_writes hardware hk hwrites
      have hclear := lastWriter_later h.last hij hbefore
      rw [← writesOver_bare, hbare'', writesOver_bare, hclear] at hover
      cases hover

/-- A chained consumer sees what its producer's store holds. -/
theorem ProducedBy.view {calls : List (Call ω)} (h : ProducedBy hardware buffer calls n i cube want record)
    (hc : Stored consumer) (hidentity : chainIdentity cube.geometry consumer = .ok ())
    {operands : List ExecutedOperand} (seen : List Seen) (memory : Nat → UInt8)
    (hmemory : ∀ k, InRange want k → memory k =
      (opOf hardware operands (.dispatch record)).store ((opOf hardware operands (.dispatch record)).compute seen) k) :
    Seen.packed (places consumer ((opOf hardware operands (.dispatch record)).compute seen).2) =
      .packed (places consumer (repacked consumer (bytesAt memory want))) := by
  have hlength := hardware.output_length record cube seen h.published
  have hwritten : (Recorded.dispatch record).written hardware (hardware.output record seen) =
      compacted cube.geometry (hardware.output record seen) := by
    unfold Recorded.written
    dsimp only
    rw [h.published]
  have hbytes : bytesAt memory want = compacted cube.geometry (hardware.output record seen) := by
    refine bytesAt_eq ?_ fun k hk => ?_
    · rw [(h.stored.compacted_spec hlength).1, h.length]
    · rw [hmemory k hk, ← hwritten]
      unfold opOf
      dsimp only
      rw [h.extent]
      rfl
  rw [hbytes]
  exact congrArg Seen.packed (places_chained h.stored hc hidentity hlength)

/-! ### Histories -/

/-- A read of an executed command buffer that is chained: the operand it gives, and its producer. -/
theorem chained_operand (hardware : Hardware ω) (hprepared : Prepared buffers) {call : Call ω} {read : Read}
    (hcall : (buffers buffer)[n]? = some call) (hread : call.reads[j]? = some read)
    (hto : chainedTo (before (buffers buffer) n) read = some i) :
    ∃ consumer cube want record, ProducedBy hardware buffer (buffers buffer) n i cube want record ∧
      Stored consumer ∧ chainIdentity cube.geometry consumer = .ok () ∧
      operandOf (before (buffers buffer) n) (.operand buffer n j) read =
        some ⟨.operand buffer n j, InRange want,
          fun memory => .packed (places consumer (repacked consumer (bytesAt memory want))),
          some (cube.handle, fun outcome => .packed (places consumer outcome.2))⟩ := by
  obtain ⟨binding, consumer, declared, cube, want, record, rfl, hchained, ho⟩ :=
    operandOf_chained (.operand buffer n j) hto
  have hn := (List.getElem?_eq_some_iff.mp hcall).1
  obtain ⟨record', hproduced⟩ := hchained.producedBy hardware hprepared rfl hn.le
  have hbuilt := (hprepared.accepted buffer call (List.mem_of_getElem? hcall)).reads _
    (List.mem_of_getElem? hread)
  exact ⟨consumer, cube, want, record', hproduced, hproduced.stored.consumer hbuilt hchained.identity,
    hchained.identity, ho⟩

theorem length_executed (hardware : Hardware ω) (buffer : Nat) (calls : List (Call ω)) :
    (executed hardware buffer calls).length = calls.length := by
  unfold executed
  rw [List.length_map, List.length_zipIdx, length_recorded]

theorem kept_dense {site : Site} {read : Read} (h : operandOf ops site read = some o)
    (hto : chainedTo ops read = none) : o.kept = none := by
  rcases operandOf_cases h with ⟨range, rfl⟩ | ⟨_, _, _, _, i, _, _, -, -, hi, -⟩
  · rfl
  · rw [hto] at hi
    cases hi

/-- A chained operand of a history was stored last by its producer, in the same execution. -/
theorem ProducedBy.in_history (h : ProducedBy hardware buffer (buffers buffer) n i cube want record)
    (earlier later : List Event) (hn : n < (buffers buffer).length) :
    Deferred.Last ((steps hardware buffers (earlier ++ .execute buffer :: later)).take
        ((steps hardware buffers earlier).length + n)) (·.slot = some cube.handle)
        ((steps hardware buffers earlier).length + i) ∧
      ∀ k, InRange want k → Deferred.LastWriter ((steps hardware buffers (earlier ++ .execute buffer :: later)).take
        ((steps hardware buffers earlier).length + n)) k ((steps hardware buffers earlier).length + i) := by
  have hle : n ≤ (Event.steps hardware buffers (.execute buffer)).length :=
    hn.le.trans_eq (length_executed hardware buffer (buffers buffer)).symm
  rw [take_steps earlier later hle]
  exact ⟨h.slot.append _, fun k hk => (h.cells k hk).append _⟩

theorem in_place (hprepared : Prepared buffers) (hop : (steps hardware buffers history)[n]? = some op)
    (ho : o ∈ op.operands) {slot : Nat} {inPlace : Outcome → Seen} (hkept : o.kept = some (slot, inPlace)) :
    ∃ m w, (steps hardware buffers history)[m]? = some w ∧
      Deferred.Last ((steps hardware buffers history).take n) (·.slot = some slot) m ∧
      (∀ k, o.cells k → Deferred.LastWriter ((steps hardware buffers history).take n) k m) ∧
      ∀ seen memory, (∀ k, o.cells k → memory k = w.store (w.compute seen) k) →
        inPlace (w.compute seen) = o.view memory := by
  rcases reads_cases ⟨op, hop, ho⟩ with ⟨earlier, buffer, later, i, call, j, read, rfl, rfl, hcall, hread,
    hgives⟩ | ⟨binding, -, hgives⟩
  · cases hto : chainedTo (before (buffers buffer) i) read with
    | none =>
      rw [kept_dense hgives hto] at hkept
      cases hkept
    | some p =>
      obtain ⟨consumer, cube, want, record, hproduced, hstored, hidentity, ho'⟩ :=
        chained_operand hardware hprepared hcall hread hto
      obtain rfl := Option.some.inj (hgives.symm.trans ho')
      cases hkept
      have hi := (List.getElem?_eq_some_iff.mp hcall).1
      obtain ⟨hslot, hcells⟩ := hproduced.in_history earlier later hi
      have hp : p < (Event.steps hardware buffers (.execute buffer)).length :=
        (hproduced.lt.trans hi).trans_eq (length_executed hardware buffer (buffers buffer)).symm
      refine ⟨(steps hardware buffers earlier).length + p,
        opOf hardware (operandsOf buffer (buffers buffer) p) (.dispatch record), ?_, hslot, hcells,
        fun seen memory hmemory => hproduced.view hstored hidentity seen memory hmemory⟩
      rw [getElem?_steps_split earlier later hp]
      change (executed hardware buffer (buffers buffer))[p]? = _
      rw [getElem?_executed, hproduced.recorded]
      rfl
  · rw [kept_dense hgives rfl] at hkept
    cases hkept

/-! ### Skipped compactions -/

/-- An operation whose store is skipped is a dispatch of an executed command buffer, declared to have as
many readers as it counted. -/
theorem skipped_dispatch (hop : (steps hardware buffers history)[n]? = some op) (h : op.skipped = true) :
    ∃ earlier buffer later i record, history = earlier ++ .execute buffer :: later ∧
      n = (steps hardware buffers earlier).length + i ∧
      (recorded (buffers buffer))[i]? = some (.dispatch record) ∧
      0 < record.layout.packedReaders ∧ record.chainedReaders = record.layout.packedReaders := by
  obtain ⟨earlier, event, later, i, rfl, hn, hi⟩ := getElem?_steps hop
  cases event with
  | execute buffer =>
    change (executed hardware buffer (buffers buffer))[i]? = some op at hi
    rw [getElem?_executed] at hi
    obtain ⟨recordedOp, hrecorded, rfl⟩ := Option.map_eq_some_iff.mp hi
    change recordedOp.elided = true at h
    cases recordedOp with
    | fill | update | copy => cases h
    | dispatch record =>
      unfold Recorded.elided compactionElidable at h
      simp only [Bool.and_eq_true, decide_eq_true_eq, beq_iff_eq] at h
      obtain ⟨-, ⟨hpos, heq⟩, -⟩ := h
      exact ⟨earlier, buffer, later, i, record, rfl, hn, hrecorded, hpos, heq⟩
  | hostRead | hostWrite =>
    obtain rfl := List.mem_singleton.mp (List.mem_of_getElem? hi)
    cases h

/-- The sites of the reads chained to operation `i` of a command buffer. -/
def inPlaceSites (buffer : Nat) (calls : List (Call ω)) (i : Nat) : Finset Site :=
  ((chainedSites calls i).map fun (n, j) => Site.operand buffer n j).toFinset

theorem mem_inPlaceSites {site : Site} : site ∈ inPlaceSites buffer calls i ↔ ∃ n j call read,
    site = .operand buffer n j ∧ calls[n]? = some call ∧ call.reads[j]? = some read ∧
      chainedTo (before calls n) read = some i := by
  unfold inPlaceSites
  simp only [List.mem_toFinset, List.mem_map, mem_chainedSites, Prod.exists]
  constructor
  · rintro ⟨n, j, ⟨call, read, hcall, hread, hto⟩, rfl⟩
    exact ⟨n, j, call, read, rfl, hcall, hread, hto⟩
  · rintro ⟨n, j, call, read, rfl, hcall, hread, hto⟩
    exact ⟨n, j, ⟨call, read, hcall, hread, hto⟩, rfl⟩

theorem card_inPlaceSites (buffer : Nat) (calls : List (Call ω)) (i : Nat) :
    (inPlaceSites buffer calls i).card = (chainedSites calls i).length := by
  unfold inPlaceSites
  rw [List.toFinset_card_of_nodup, List.length_map]
  refine (nodup_chainedSites calls i).map fun site site' h => ?_
  obtain ⟨n, j⟩ := site
  obtain ⟨n', j'⟩ := site'
  cases h
  rfl

/-- Every read chained to a dispatch reads its bytes, wherever the command buffer is executed. -/
theorem inPlaceSites_subset (hprepared : Prepared buffers) :
    ↑(inPlaceSites buffer (buffers buffer) i) ⊆ Deferred.readingSites
      (steps hardware buffers (earlier ++ .execute buffer :: later))
      ((steps hardware buffers earlier).length + i) := by
  intro site hsite
  obtain ⟨n, j, call, read, rfl, hcall, hread, hto⟩ := mem_inPlaceSites.mp (Finset.mem_coe.mp hsite)
  obtain ⟨consumer, cube, want, record, hproduced, -, -, hgives⟩ :=
    chained_operand hardware hprepared hcall hread hto
  have hn := (List.getElem?_eq_some_iff.mp hcall).1
  have hlength : n < (Event.steps hardware buffers (.execute buffer)).length :=
    hn.trans_eq (length_executed hardware buffer (buffers buffer)).symm
  obtain ⟨op, hop⟩ : ∃ op, (recorded (buffers buffer))[n]? = some op :=
    ⟨_, List.getElem?_eq_getElem (by rw [length_recorded]; exact hn)⟩
  have hnonempty : InRange want want.1 := by
    have hpixels := hproduced.stored.wellFormed.pixel_pos
    have hbytes := hproduced.stored.wellFormed.bytes_pos
    have hpos := Nat.mul_pos hpixels hbytes
    have hend := hproduced.length
    exact ⟨Nat.le_refl _, by omega⟩
  refine ⟨(steps hardware buffers earlier).length + n, _,
    ⟨opOf hardware (operandsOf buffer (buffers buffer) n) op, ?_,
      mem_operandsOf.mpr ⟨call, j, read, hcall, hread, hgives⟩⟩, rfl, want.1, hnonempty,
    (hproduced.in_history earlier later hn).2 _ hnonempty⟩
  rw [getElem?_steps_split earlier later hlength]
  change (executed hardware buffer (buffers buffer))[n]? = _
  rw [getElem?_executed, hop]
  rfl

/-- A read at a chained site is read in place. -/
theorem kept_of_inPlaceSites (hreads : Deferred.Reads (steps hardware buffers history) n o)
    (hsite : o.site ∈ inPlaceSites buffer (buffers buffer) i) : o.kept ≠ none := by
  obtain ⟨n', j', call, read, heq, hcall, hread, hto⟩ := mem_inPlaceSites.mp hsite
  rcases reads_cases hreads with ⟨_, _, _, _, call', _, read', -, -, hcall', hread', hgives⟩ | ⟨_, -, hgives⟩
  · cases (operandOf_site hgives).symm.trans heq
    obtain rfl := Option.some.inj (hcall'.symm.trans hcall)
    obtain rfl := Option.some.inj (hread'.symm.trans hread)
    obtain ⟨_, _, _, _, _, _, -, -, hgives'⟩ := operandOf_chained (.operand buffer n' j') hto
    obtain rfl := Option.some.inj (hgives.symm.trans hgives')
    exact Option.some_ne_none _
  · cases (operandOf_site hgives).symm.trans heq

/-- The conditions of a sound deferred run hold of every history. -/
theorem steps_sound (hprepared : Prepared buffers) (htruthful : Truthful hardware buffers history) :
    Deferred.Sound (steps hardware buffers history) where
  view_cells op hop o ho _ _ hcells := by
    obtain ⟨n, hn⟩ := List.mem_iff_getElem?.mp hop
    rcases reads_cases ⟨op, hn, ho⟩ with ⟨_, _, _, _, _, _, _, -, -, -, -, hgives⟩ | ⟨_, -, hgives⟩
    · exact operandOf_view hgives hcells
    · exact operandOf_view hgives hcells
  stored := by
    refine Deferred.stored_of_sites fun m w hw hskipped => ?_
    obtain ⟨earlier, buffer, later, i, record, rfl, rfl, hrecorded, hpos, heq⟩ := skipped_dispatch hw hskipped
    refine ⟨inPlaceSites buffer (buffers buffer) i, inPlaceSites_subset hprepared, ?_,
      fun n o hreads hsite => kept_of_inPlaceSites hreads hsite⟩
    have hcount := htruthful earlier buffer later i record rfl hrecorded hpos
    rwa [card_inPlaceSites, ← chainedReaders_eq (hprepared.accepted buffer) hrecorded, heq]
  in_place _ _ hop _ ho _ _ hkept := in_place hprepared hop ho hkept

/-- **Chaining and skipped compactions change nothing that is read.** Over every history, whatever the
hardware computes, every dispatch operand, copy and host read sees the bytes it would see if every operand
were packed from memory and every output compacted, and every operation makes the same of them. So does
every cell of the memory whose last store was made. -/
theorem elided_eq_plain (hprepared : Prepared buffers) (htruthful : Truthful hardware buffers history)
    (memory : Nat → UInt8) (scratch : Nat → Option Outcome) :
    (elidedRun hardware buffers history memory scratch).results =
        (plainRun hardware buffers history memory scratch).results ∧
      ∀ k, (∀ m w, Deferred.LastWriter (steps hardware buffers history) k m →
          (steps hardware buffers history)[m]? = some w → w.skipped = false) →
        (elidedRun hardware buffers history memory scratch).memory k =
          (plainRun hardware buffers history memory scratch).memory k :=
  Deferred.deferred_eq_plain (steps_sound hprepared htruthful) memory scratch

/-! ### Two dispatches, one cube -/

/-- A dispatch that leaves a full atom at address 64, for one declared reader. -/
def atomProducer : Call Unit :=
  ⟨[], .dispatch ⟨(), some ⟨some 64, 0, 4, 16⟩, some ⟨some 64, 0, 1, fullAtom⟩, ⟨0, 1⟩, 0, false⟩⟩

/-- Its reader, which leaves another at address 128. -/
def atomReader : Call Unit :=
  ⟨[.chain ⟨some 64, 0, 64⟩ fullAtom true],
    .dispatch ⟨(), some ⟨some 128, 0, 4, 16⟩, some ⟨some 128, 0, 2, fullAtom⟩, ⟨1, 0⟩, 0, false⟩⟩

def atomBuffers (buffer : Nat) : List (Call Unit) := if buffer = 0 then [atomProducer, atomReader] else []

/-- The producer's compaction is skipped. -/
example : (recorded (atomBuffers 0)).map Recorded.elided = [true, false] := by decide

def atomHardware : Hardware Unit where
  output record _ := List.replicate ((record.outputCube.map fun cube => cubeBytes cube.geometry).getD 0) 1
  dense _ result := result
  output_length record cube _ h := by rw [h, List.length_replicate]; rfl

theorem atomBuffers_prepared : Prepared atomBuffers where
  accepted buffer call hcall := by
    unfold atomBuffers at hcall
    split_ifs at hcall
    · have hatom : Built fullAtom := fullAtom_stored.built
      rcases List.mem_pair.mp hcall with rfl | rfl
      · refine .dispatch (List.forall_mem_nil _) ⟨rfl, rfl, fun cube hcube => ?_⟩
        obtain rfl := Option.some.inj hcube
        exact ⟨hatom, rfl⟩
      · refine .dispatch (List.forall_mem_singleton.mpr hatom) ⟨rfl, rfl, fun cube hcube => ?_⟩
        obtain rfl := Option.some.inj hcube
        exact ⟨hatom, rfl⟩
    · cases hcall
  handles buffer i j call call' cube cube' hi hj hcube hcube' hhandle := by
    unfold atomBuffers at hi hj
    split_ifs at hi hj
    · rcases i with _ | _ | i <;> rcases j with _ | _ | j <;> cases hi <;> cases hj <;> cases hcube <;>
        cases hcube' <;> first | rfl | cases hhandle
    · cases hi
  allocated buffer call hcall cube hcube := by
    unfold atomBuffers at hcall
    split_ifs at hcall
    · rcases List.mem_pair.mp hcall with rfl | rfl <;> cases hcube <;> exact fullAtom_stored.storage
    · cases hcall

theorem atomBuffers_truthful : Truthful atomHardware atomBuffers [.execute 0] := by
  intro earlier buffer later i record hhistory hrecorded hpos
  obtain ⟨rfl, rfl, rfl⟩ : earlier = [] ∧ buffer = 0 ∧ later = [] := by
    cases earlier with
    | nil => simpa using hhistory.symm
    | cons event earlier => simp at hhistory
  -- the reader's one operand is the only one of the history
  have hsites : Deferred.readingSites (steps atomHardware atomBuffers [.execute 0]) i ⊆ {.operand 0 1 0} := by
    rintro site ⟨n, o, hreads, rfl, -⟩
    rcases reads_cases hreads with ⟨earlier, buffer, later, i, call, j, read, hhistory, -, hcall, hread, hgives⟩ |
      ⟨binding, hmem, -⟩
    · rw [operandOf_site hgives]
      have hbuffer : buffer = 0 := by
        have hmem : Event.execute buffer ∈ [.execute 0] := hhistory ▸ by simp
        simpa using hmem
      subst hbuffer
      rcases i with _ | _ | i
      · cases hcall
        cases hread
      · cases hcall
        rcases j with _ | j
        · rfl
        · cases hread
      · cases hcall
    · simp at hmem
  have hone : 1 ≤ record.layout.packedReaders := hpos
  calc (Deferred.readingSites (steps atomHardware atomBuffers [.execute 0]) (0 + i)).encard
      ≤ ({.operand 0 1 0} : Set Site).encard := Set.encard_le_encard (by rwa [Nat.zero_add])
    _ = 1 := Set.encard_singleton _
    _ ≤ record.layout.packedReaders := by exact_mod_cast hone

theorem elided_eq_plain_atoms :
    (elidedRun atomHardware atomBuffers [.execute 0] (fun _ => 0) fun _ => none).results =
      (plainRun atomHardware atomBuffers [.execute 0] (fun _ => 0) fun _ => none).results :=
  (elided_eq_plain atomBuffers_prepared atomBuffers_truthful (fun _ => 0) fun _ => none).1

end IreeRocket.Driver
