import IreeRocket.Driver.Chaining
import IreeRocket.Lib.Marking

/-!
# The marks a dispatch leaves on a recording

While it is recorded, a dispatch reads what is recorded before it: a chained input counts one more reader of
its producer (`chainable_cube`), and a dense read marks the dispatches whose output it overlaps
(`note_dense_read`). Neither mark changes what a later lookup finds (`Same.answer`). `Untouched` says which
reads leave none.
-/

namespace IreeRocket.Driver

open Layout Marking

/-- How a dispatch ends without being recorded: with a status, or with the thread. -/
inductive DispatchStop
  | refused (status : Status)
  | unimplemented
  | panicked (message : String)
  deriving DecidableEq, Repr

/-- The two ways a dispatch looks at what is recorded. -/
inductive Read
  | chain (binding : Binding) (consumer : CubeGeometry) (declared : Bool)
  | dense (binding : Binding)
  deriving DecidableEq, Repr

section Store

variable {ω : Type}

def answer (ops : List (Recorded ω)) : Read → Except DispatchStop (Option OutputCube)
  | .chain binding consumer declared =>
    match chainableCube ops binding consumer declared with
    | .ok (cube, _) => .ok cube
    | .error status => .error (.refused status)
  | .dense _ => .ok none

/-- The recording with the read noted. -/
def mark (ops : List (Recorded ω)) : Read → List (Recorded ω)
  | .chain binding consumer declared =>
    match chainableCube ops binding consumer declared with
    | .ok (_, counted) => counted
    | .error _ => ops
  | .dense binding => noteDenseRead ops binding

/-- An operation's bookkeeping: its chained readers, and whether a dense read was seen. -/
def Recorded.bookkeeping : Recorded ω → Nat
  | .dispatch record => record.chainedReaders + (if record.denseReadSeen then 1 else 0)
  | _ => 0

def bookkeeping (ops : List (Recorded ω)) : Nat := (ops.map Recorded.bookkeeping).sum

/-- An operation without its bookkeeping. -/
def Recorded.bare : Recorded ω → Recorded ω
  | .dispatch record => .dispatch { record with chainedReaders := 0, denseReadSeen := false }
  | op => op

variable {ops ops' : List (Recorded ω)}

@[simp] theorem recordedWriteExtent_bare (op : Recorded ω) :
    recordedWriteExtent op.bare = recordedWriteExtent op := by
  cases op <;> rfl

@[simp] theorem writesOver_bare (op : Recorded ω) : writesOver op.bare = writesOver op := by
  funext range
  unfold writesOver
  rw [recordedWriteExtent_bare]

/-- Recordings that differ in their bookkeeping only. -/
def Same (ops ops' : List (Recorded ω)) : Prop := ops.map Recorded.bare = ops'.map Recorded.bare

theorem Same.getElem? (h : Same ops ops') (i : Nat) :
    (ops[i]?).map Recorded.bare = (ops'[i]?).map Recorded.bare := by
  rw [← List.getElem?_map, ← List.getElem?_map, h]

theorem Same.lastWriter (h : Same ops ops') (range : Nat × Nat) :
    lastWriter ops range = lastWriter ops' range := by
  have hlength : ops.length = ops'.length := by
    simpa using congrArg List.length h
  unfold Driver.lastWriter
  rw [hlength]
  congr 1
  funext i
  have hbare := congrArg (Option.any fun op => writesOver op range) (h.getElem? i)
  simpa [Option.any_map, Function.comp_def] using hbare

/-- The cube an operation publishes. -/
def Recorded.cube : Recorded ω → Option OutputCube
  | .dispatch record => record.outputCube
  | _ => none

/-- The cube of the most recent operation that writes over a range. -/
def producer (ops : List (Recorded ω)) (want : Nat × Nat) : Option OutputCube :=
  (lastWriter ops want).bind fun i => ops[i]?.bind Recorded.cube

@[simp] theorem cube_bare (op : Recorded ω) : op.bare.cube = op.cube := by
  cases op <;> rfl

theorem Same.producer (h : Same ops ops') (want : Nat × Nat) : producer ops want = producer ops' want := by
  unfold Driver.producer
  rw [h.lastWriter]
  congr 1
  funext i
  have hbare := congrArg (Option.bind · Recorded.cube) (h.getElem? i)
  simpa [Option.bind_map, Function.comp_def] using hbare

/-- What `chainable_cube` answers is what the producer's cube allows. -/
theorem answer_chain (binding : Binding) (consumer : CubeGeometry) (declared : Bool) :
    answer ops (.chain binding consumer declared) =
      if !declared || binding.buffer.isNone then .ok none
      else
        match consumer.canChain with
        | .error _ => .error (.refused .internal)
        | .ok _ =>
          match dmaRange binding.buffer binding.offset (consumer.pixelCount * consumer.bytesPerPixel) with
          | none => .ok none
          | some want =>
            match producer ops want with
            | none => .ok none
            | some cube =>
              if dmaRange cube.denseBuffer cube.denseOffset
                  (cube.geometry.pixelCount * cube.geometry.bytesPerPixel) ≠ some want then .ok none
              else
                match chainIdentity cube.geometry consumer with
                | .error _ => .error (.refused .internal)
                | .ok _ => .ok (some cube) := by
  unfold answer chainableCube
  dsimp only
  split_ifs
  · rfl
  · cases consumer.canChain with
    | error refusal => rfl
    | ok _ =>
      dsimp only
      cases dmaRange binding.buffer binding.offset (consumer.pixelCount * consumer.bytesPerPixel) with
      | none => rfl
      | some want =>
        unfold producer
        dsimp only
        cases lastWriter ops want with
        | none => rfl
        | some i =>
          simp only [Option.bind_some]
          cases ops[i]? with
          | none => rfl
          | some op =>
            cases op with
            | fill | update | copy => rfl
            | dispatch record =>
              simp only [Option.map_some, Option.bind_some, Recorded.cube]
              cases record.outputCube with
              | none => rfl
              | some cube =>
                dsimp only
                split_ifs
                · rfl
                · cases chainIdentity cube.geometry consumer <;> rfl

/-- No answer depends on the bookkeeping. -/
theorem Same.answer (h : Same ops ops') (read : Read) : answer ops read = answer ops' read := by
  cases read with
  | dense binding => rfl
  | chain binding consumer declared =>
    rw [answer_chain, answer_chain]
    simp only [h.producer]

/-! ### Marks -/

/-- A change of one operation that adds to its bookkeeping, or is none. -/
structure Marks (f : Recorded ω → Recorded ω) : Prop where
  bare : ∀ op, (f op).bare = op.bare
  adds : ∀ op, f op = op ∨ op.bookkeeping < (f op).bookkeeping

theorem Marks.modify {f : Recorded ω → Recorded ω} (h : Marks f) (ops : List (Recorded ω)) (i : Nat) :
    Same (ops.modify i f) ops ∧ (ops.modify i f = ops ∨ bookkeeping ops < bookkeeping (ops.modify i f)) := by
  induction ops generalizing i with
  | nil => exact ⟨by rw [List.modify_nil]; rfl, .inl (List.modify_nil ..)⟩
  | cons op ops ih =>
    cases i with
    | zero =>
      refine ⟨congrArg (· :: ops.map Recorded.bare) (h.bare op), ?_⟩
      rcases h.adds op with heq | hlt
      · exact .inl (congrArg (· :: ops) heq)
      · exact .inr (Nat.add_lt_add_right hlt _)
    | succ i =>
      obtain ⟨hsame, hadds⟩ := ih i
      refine ⟨congrArg (op.bare :: ·) hsame, ?_⟩
      rcases hadds with heq | hlt
      · exact .inl (congrArg (op :: ·) heq)
      · exact .inr (Nat.add_lt_add_left hlt _)

theorem Marks.map {f : Recorded ω → Recorded ω} (h : Marks f) (ops : List (Recorded ω)) :
    Same (ops.map f) ops ∧ (ops.map f = ops ∨ bookkeeping ops < bookkeeping (ops.map f)) := by
  constructor
  · unfold Same
    rw [List.map_map]
    exact congrArg (List.map · ops) (funext h.bare)
  · induction ops with
    | nil => exact .inl rfl
    | cons op ops ih =>
      rcases h.adds op with heq | hlt
      · rcases ih with hmap | hlt
        · exact .inl (congrArg₂ List.cons heq hmap)
        · refine .inr ?_
          change op.bookkeeping + bookkeeping ops < (f op).bookkeeping + bookkeeping (ops.map f)
          rw [heq]
          exact Nat.add_lt_add_left hlt _
      · refine .inr ?_
        change op.bookkeeping + bookkeeping ops < (f op).bookkeeping + bookkeeping (ops.map f)
        rcases ih with hmap | hmore
        · rw [hmap]
          exact Nat.add_lt_add_right hlt _
        · exact Nat.add_lt_add hlt hmore

theorem countReader_marks (ops : List (Recorded ω)) (i : Nat) :
    Same (countReader ops i) ops ∧
      (countReader ops i = ops ∨ bookkeeping ops < bookkeeping (countReader ops i)) := by
  refine Marks.modify ⟨fun op => ?_, fun op => ?_⟩ ops i
  · cases op <;> rfl
  · cases op with
    | fill | update | copy => exact .inl rfl
    | dispatch record =>
      exact .inr (Nat.add_lt_add_right (Nat.lt_succ_self record.chainedReaders) _)

theorem noteDenseRead_marks (ops : List (Recorded ω)) (binding : Binding) :
    Same (noteDenseRead ops binding) ops ∧
      (noteDenseRead ops binding = ops ∨ bookkeeping ops < bookkeeping (noteDenseRead ops binding)) := by
  unfold noteDenseRead
  cases dmaRange binding.buffer binding.offset binding.length with
  | none => exact ⟨rfl, .inl rfl⟩
  | some read =>
    refine Marks.map ⟨fun op => ?_, fun op => ?_⟩ ops
    · cases op with
      | fill | update | copy => rfl
      | dispatch record =>
        dsimp only
        split_ifs <;> rfl
    · cases op with
      | fill | update | copy => exact .inl rfl
      | dispatch record =>
        dsimp only
        split_ifs
        · cases hseen : record.denseReadSeen with
          | true => exact .inl (by rw [← hseen])
          | false => exact .inr (by simp [Recorded.bookkeeping, hseen])
        · exact .inl rfl

/-- A lookup finds nothing and changes nothing, or finds a cube and counts a reader of its dispatch. -/
theorem chainableCube_ok {binding : Binding} {consumer : CubeGeometry} {declared : Bool}
    {found : Option OutputCube} {counted : List (Recorded ω)}
    (h : chainableCube ops binding consumer declared = .ok (found, counted)) :
    (found = none ∧ counted = ops) ∨ ∃ cube i record,
      found = some cube ∧ ops[i]? = some (.dispatch record) ∧ counted = countReader ops i := by
  unfold chainableCube at h
  split_ifs at h
  · cases h
    exact .inl ⟨rfl, rfl⟩
  split at h
  next => cases h
  split at h
  next =>
    cases h
    exact .inl ⟨rfl, rfl⟩
  split at h
  next i record hfound =>
    obtain ⟨j, -, hj⟩ := Option.bind_eq_some_iff.mp hfound
    obtain ⟨op, hop, hpair⟩ := Option.map_eq_some_iff.mp hj
    cases hpair
    split at h
    next =>
      cases h
      exact .inl ⟨rfl, rfl⟩
    next cube hcube =>
      split_ifs at h
      · cases h
        exact .inl ⟨rfl, rfl⟩
      split at h
      next => cases h
      next =>
        cases h
        exact .inr ⟨cube, i, record, rfl, hop, rfl⟩
  next =>
    cases h
    exact .inl ⟨rfl, rfl⟩

theorem mark_marks (ops : List (Recorded ω)) (read : Read) :
    Same (mark ops read) ops ∧ (mark ops read = ops ∨ bookkeeping ops < bookkeeping (mark ops read)) := by
  cases read with
  | dense binding => exact noteDenseRead_marks ops binding
  | chain binding consumer declared =>
    unfold mark
    dsimp only
    split
    next found counted hchain =>
      rcases chainableCube_ok hchain with ⟨-, rfl⟩ | ⟨cube, i, record, -, -, rfl⟩
      · exact ⟨rfl, .inl rfl⟩
      · exact countReader_marks ops i
    next => exact ⟨rfl, .inl rfl⟩

/-! ### Reads without a mark -/

/-- A read that leaves the recording as it is: no cube is found, or every dispatch it overlaps was seen. -/
def Untouched (ops : List (Recorded ω)) : Read → Prop
  | .chain binding consumer declared =>
    ∀ cube, answer ops (.chain binding consumer declared) ≠ .ok (some cube)
  | .dense binding => ∀ range, dmaRange binding.buffer binding.offset binding.length = some range →
      ∀ record, .dispatch record ∈ ops → writesOver (.dispatch record) range = true →
        record.denseReadSeen = true

/-- A counted reader is one more. -/
theorem countReader_ne {i : Nat} {record : DispatchRecord ω} (h : ops[i]? = some (.dispatch record)) :
    countReader ops i ≠ ops := by
  intro heq
  have hcounted : (countReader ops i)[i]? = some (.dispatch record) := by
    rw [heq, h]
  unfold countReader at hcounted
  rw [List.getElem?_modify_eq, h] at hcounted
  simp at hcounted
  have hreaders := congrArg DispatchRecord.chainedReaders hcounted
  simp at hreaders

theorem mark_eq_iff (read : Read) : mark ops read = ops ↔ Untouched ops read := by
  cases read with
  | chain binding consumer declared =>
    unfold Untouched mark answer
    dsimp only
    cases hchain : chainableCube ops binding consumer declared with
    | error status => simp
    | ok pair =>
      obtain ⟨found, counted⟩ := pair
      rcases chainableCube_ok hchain with ⟨rfl, rfl⟩ | ⟨cube, i, record, rfl, hop, rfl⟩
      · simp
      · simp [countReader_ne hop]
  | dense binding =>
    unfold Untouched mark noteDenseRead
    dsimp only
    cases dmaRange binding.buffer binding.offset binding.length with
    | none => simp
    | some read =>
      dsimp only
      constructor
      · intro hmap range hrange record hmem hover
        cases hrange
        obtain ⟨i, hi⟩ := List.mem_iff_getElem?.mp hmem
        have hop := congrArg (·[i]?) hmap
        simp only [List.getElem?_map, hi, Option.map_some, hover, if_true, Option.some.injEq,
          Recorded.dispatch.injEq] at hop
        exact (congrArg DispatchRecord.denseReadSeen hop).symm
      · intro hseen
        refine (List.map_congr_left fun op hop => ?_).trans (List.map_id ops)
        cases op with
        | fill | update | copy => rfl
        | dispatch record =>
          dsimp only
          split_ifs with hover
          · have htrue := hseen read rfl record hop hover
            rw [← htrue]
            rfl
          · rfl

/-- A recording as a store that its reads mark. -/
def recording (ω : Type) : Store (List (Recorded ω)) Read (Option OutputCube) DispatchStop where
  answer := answer
  mark := mark
  weight := bookkeeping
  mark_weight ops read := (mark_marks ops read).2
  answer_mark ops read next := (mark_marks ops read).1.answer next

@[simp] theorem recording_answer : (recording ω).answer = answer := rfl

@[simp] theorem recording_mark : (recording ω).mark = mark := rfl

end Store

end IreeRocket.Driver
