import IreeRocket.Driver.DispatchOperands

/-!
# What a refused dispatch leaves behind

Nothing undoes the marks of a dispatch that is refused after its first lookup: a chained input has counted
its reader, and a dense read has marked the dispatches it overlaps. Which operands are resolved before the
check that refuses the call follows from the kind of the dispatch, its bindings and its layout word, and the
recording is as it was exactly when none of these is resolved with a mark (`refused_unchanged_iff`). A pool
checks everything before it looks its input up, and is refused without a mark.
-/

namespace IreeRocket.Driver

open Conv Layout TensorLayout Weights Hal Marking

variable {ctx : Context} {ukernel : UkernelShape} {constants : Option Bytes} {refs : List Binding}
variable {ops : Recording} {stop : DispatchStop}

/-- The call returns. A panic does not. -/
def DispatchStop.Returned : DispatchStop → Prop
  | .refused _ | .unimplemented => True
  | .panicked _ => False

/-- How a call ends, by the recording it is made on. -/
def verdict (ctx : Context) (ukernel : UkernelShape) (constants : Option Bytes) (refs : List Binding)
    (ops : Recording) : Except DispatchStop (DispatchRecord Programs) :=
  (recording Programs).outcome ops (dispatchImpl ctx ukernel constants refs)

/-- A call ends as the recording it is made on decides. -/
theorem dispatch_error_iff :
    (dispatch ctx ukernel constants refs ops).1 = .error stop ↔
      verdict ctx ukernel constants refs ops = .error stop := by
  unfold dispatch verdict
  rw [← Store.run_fst]
  rcases (recording Programs).run (dispatchImpl ctx ukernel constants refs) ops with ⟨end', ops'⟩
  cases end' <;> simp

/-- A call that does not record leaves the recording with the marks of its reads. -/
theorem dispatch_ops (h : (dispatch ctx ukernel constants refs ops).1 = .error stop) :
    (dispatch ctx ukernel constants refs ops).2 =
      ((recording Programs).run (dispatchImpl ctx ukernel constants refs) ops).2 := by
  unfold dispatch at h ⊢
  generalize (recording Programs).run (dispatchImpl ctx ukernel constants refs) ops = result at h ⊢
  obtain ⟨_ | record, ops'⟩ := result
  · rfl
  · cases h

/-! ### Checks behind a lookup -/

section Checks

variable (ctx : Context)

/-- The checks of a convolution's coefficients. -/
def WeightsAccepted (executable : Conv2dExecutable) (shape : Shape) (kernels : Kernels)
    (weights : Binding) : Prop :=
  if executable.weightsPacked then
    ∃ bytes, (WeightPlan.forConv shape kernels).packedBytes = .ok bytes ∧ bytes ≤ weights.length
  else if shape.depthwise then
    Fits (checkedProduct kernels.1 [kernels.2, shape.inChannels, shape.precision.elementBytes]) weights ∧
      ∃ programming, shape.tryKernelProgramming kernels = .ok programming
  else
    Fits (checkedProduct kernels.1
      [kernels.2, shape.inChannels, shape.outChannels, shape.precision.elementBytes]) weights ∧
      ∃ bytes, rocketWeightStorageSize kernels.1 kernels.2 shape.inChannels shape.outChannels
        shape.precision.elementBytes = .ok bytes

def weightsAddress (executable : Conv2dExecutable) (weights : Binding) : Nat :=
  if executable.weightsPacked then stageDirect ctx weights .weights else ctx.scratchAddress .weights

/-- The checks of a convolution's bias. -/
def BiasAccepted (shape : Shape) (bias : Binding) : Prop :=
  match shape.precision with
  | .fp16 => Fits (checkedMul shape.outChannels shape.precision.elementBytes) bias ∧
      ∃ bytes, rocketFp16BiasStorageSize shape.paddedOutChannels = .ok bytes
  | .int8 _ | .int8Accumulator _ => Fits (checkedMul shape.outChannels 4) bias
  | _ => True

def biasAddress (shape : Shape) (bias : Binding) : Nat :=
  match shape.precision with
  | .fp16 | .int8 _ | .int8Accumulator _ => ctx.scratchAddress .bias
  | _ => stageDirect ctx bias .bias

/-- The check of a convolution's input that is read in no cube. -/
def InputAccepted (shape : Shape) (geometry : CubeGeometry) : Prop :=
  shape.layout = .surfaces →
    ∃ bytes, nc1hwc2StorageSize geometry.pixelCount geometry.packedBytesPerPixel = .ok bytes

def inputAddress (shape : Shape) (input : Binding) : Nat :=
  if shape.layout = .surfaces then ctx.scratchAddress .input else stageDirect ctx input .input

end Checks

/-! ### The operands a refused call resolved -/

section Conditions

variable (ctx : Context) (constants : Bytes) (refs : List Binding) (ops : Recording)

/-- The input is resolved behind every check but those of the output. -/
def UnaryUnmarked (executable : ElementwiseUnaryExecutable) : Prop :=
  ∀ shape, executable.resolveShape constants = .ok shape →
    ∀ cube, elementwiseCube shape.geometry.width shape.geometry.height shape.geometry.channels 2 = .ok cube →
      2 ≤ refs.length → ∀ input, refs[0]? = some input →
        (DispatchOperand.feature input cube true
          ((trailingLayout executable.runtimeDenseReaders executable.runtimeLayout constants).inputPacked
            0)).Unmarked ops

def LutUnmarked (executable : ElementwiseLutExecutable) : Prop :=
  ∀ shape, executable.resolveShape constants = .ok shape →
    ∀ cube, elementwiseCube shape.geometry.width shape.geometry.height shape.geometry.channels 1 = .ok cube →
      2 ≤ refs.length → ∀ input, refs[0]? = some input →
        (DispatchOperand.feature input cube true
          ((trailingLayout executable.runtimeDenseReaders executable.runtimeLayout constants).inputPacked
            0)).Unmarked ops

/-- The second operand is resolved behind the length of the first. -/
def BinaryUnmarked (executable : ElementwiseBinaryExecutable) : Prop :=
  ∀ shape, executable.resolveShape constants = .ok shape →
    ∀ cube, elementwiseCube shape.geometry.width shape.geometry.height shape.geometry.channels 2 = .ok cube →
      3 ≤ refs.length → ∀ first, refs[0]? = some first →
        let layout := trailingLayout executable.runtimeDenseReaders executable.runtimeLayout constants
        (DispatchOperand.feature first cube true (layout.inputPacked 0)).Unmarked ops ∧
          ((DispatchOperand.feature first cube true (layout.inputPacked 0)).Unchained ops →
            Fits (denseSize cube) first → ∀ second, refs[1]? = some second →
              (DispatchOperand.feature second cube true (layout.inputPacked 1)).Unmarked ops)

/-- The input is resolved behind the lengths of all bindings. The coefficients and the bias are read last. -/
def MatmulUnmarked (executable : MatmulExecutable) : Prop :=
  ∀ shape, executable.resolveShape constants = .ok shape → 4 ≤ refs.length →
    ∀ input, refs[0]? = some input → ∀ weights, refs[1]? = some weights → ∀ bias, refs[2]? = some bias →
    ∀ output, refs[3]? = some output →
    ∀ inputGeometry, cubeGeometry .matmul shape.precision.elementBytes shape.m 1 shape.k = .ok inputGeometry →
    ∀ outputGeometry,
      cubeGeometry .matmul shape.precision.elementBytes shape.m 1 shape.n = .ok outputGeometry →
    (Fits (checkedMul shape.m inputGeometry.bytesPerPixel) input ∧
      Fits (checkedProduct shape.k [shape.n, shape.precision.elementBytes]) weights ∧
      Fits (checkedMul shape.n shape.precision.elementBytes) bias ∧
      Fits (checkedMul shape.m outputGeometry.bytesPerPixel) output ∧
      0 ≤ (shape.precision.quantization.map Quantization.inputZeroPoint).getD 0 ∧
      (shape.precision.quantization.map Quantization.inputZeroPoint).getD 0 ≤ 255) →
    ∀ scratchBytes, (if 1 < shape.k then
        (nc1hwc2StorageSize shape.m inputGeometry.packedBytesPerPixel).toOption
      else checkedMul shape.m inputGeometry.bytesPerPixel) = some scratchBytes → scratchBytes < 2 ^ 32 →
    (DispatchOperand.feature input inputGeometry (1 < shape.k)
      ((trailingLayout executable.runtimeDenseReaders executable.runtimeLayout constants).inputPacked
        0)).Unmarked ops

/-- The skip is resolved behind the checks of the coefficients and the bias, the plan and the sum's cube. -/
def SkipUnmarked (executable : Conv2dExecutable) (shape : Shape) (kernels : Kernels)
    (geometry : CubeGeometry) (input weights bias : Binding) : Prop :=
  InputAccepted shape geometry → WeightsAccepted executable shape kernels weights → BiasAccepted shape bias →
    ∀ tasks, convTasks ctx shape kernels executable.epilogueAdd (max (shape.outputScratchBytes kernels) 1) {
        input := inputAddress ctx shape input
        weights := weightsAddress ctx executable weights
        bias := biasAddress ctx shape bias
        output := ctx.scratchAddress .output } = .ok tasks →
    ∀ outputGeometry, cubeGeometry .conv shape.precision.outputElementBytes (shape.outputWidth kernels)
      (shape.outputHeight kernels) shape.outChannels = .ok outputGeometry →
    executable.epilogueAdd = true → ∀ skip, refs[3]? = some skip →
    ∀ cube, elementwiseCube (shape.outputWidth kernels) (shape.outputHeight kernels) shape.outChannels 2 =
      .ok cube →
    ∀ bytes, cube.storageBytes = .ok bytes → bytes = max (shape.outputScratchBytes kernels) 1 →
    (DispatchOperand.feature skip cube true
      ((trailingLayout executable.runtimeDenseReaders executable.runtimeLayout constants).inputPacked
        3)).Unmarked ops

/-- The input is resolved behind its own length, and the coefficients and the bias with it. -/
def ConvUnmarked (executable : Conv2dExecutable) : Prop :=
  ∀ resolved, executable.resolveShape constants = .ok resolved →
    (if executable.epilogueAdd then 4 else 3) + 1 ≤ refs.length →
    (executable.epilogueAdd = true → resolved.1.precision = .fp16 ∧ resolved.1.outChannels % 16 = 0) →
    ∀ input, refs[0]? = some input → ∀ weights, refs[1]? = some weights → ∀ bias, refs[2]? = some bias →
    ∀ output, refs[if executable.epilogueAdd then 4 else 3]? = some output →
    ∀ geometry, cubeGeometry .conv resolved.1.precision.elementBytes resolved.1.width resolved.1.height
      resolved.1.inChannels = .ok geometry → Fits (denseSize geometry) input →
    let operand := DispatchOperand.feature input geometry (resolved.1.layout = .surfaces)
      ((trailingLayout executable.runtimeDenseReaders executable.runtimeLayout constants).inputPacked 0)
    operand.Unmarked ops ∧ (operand.Unchained ops →
      (DispatchOperand.dense weights).Unmarked ops ∧ (DispatchOperand.dense bias).Unmarked ops ∧
        SkipUnmarked ctx constants refs ops executable resolved.1 resolved.2 geometry input weights bias)

/-- A call that is refused resolved no operand with a mark. -/
def LeavesNoMark (ukernel : UkernelShape) (constants : Option Bytes) : Prop :=
  ∀ bytes, constants = some bytes → refs.all (·.buffer.isSome) = true →
    match ukernel with
    | .conv2d executable => ConvUnmarked ctx bytes refs ops executable
    | .matmul executable _ => MatmulUnmarked bytes refs ops executable
    | .pooling _ => True
    | .elementwiseUnary executable => UnaryUnmarked bytes refs ops executable
    | .elementwiseBinary executable => BinaryUnmarked bytes refs ops executable
    | .elementwiseLut executable => LutUnmarked bytes refs ops executable

end Conditions

/-! ### What each step adds -/

section Steps

variable {α β : Type} {cond : Prop}

/-- The condition under which a script that is refused leaves no mark. -/
abbrev Judged (ops : Recording) (script : DispatchScript β) (cond : Prop) : Prop :=
  (recording Programs).Judges DispatchStop.Returned ops script cond

/-- A check that asks nothing, and the value it lets through. -/
theorem Judged.step {script : DispatchScript α} {accepts : α → Prop} {f : α → DispatchScript β}
    {cond : α → Prop} (hsilent : script.Silent)
    (hok : ∀ value, (recording Programs).outcome ops script = .ok value ↔ accepts value)
    (h : ∀ value, accepts value → Judged ops (f value) (cond value)) :
    Judged ops (script >>= f) (∀ value, accepts value → cond value) :=
  (Store.Judges.bind hsilent fun value houtcome => h value ((hok value).mp houtcome)).congr
    (forall_congr' fun value => imp_congr_left (hok value))

theorem judged_unlessErr {check : Prop} [Decidable check] {reason : DispatchStop} {f : Unit → DispatchScript β}
    (h : check → Judged ops (f ()) cond) :
    Judged ops (Script.lift (unlessErr check reason) >>= f) (check → cond) :=
  (Judged.step (Script.silent_lift _) (fun _ => by rw [Store.outcome_lift, unlessErr_ok])
    fun _ => h).congr ⟨fun hcond => hcond (), fun hcond _ => hcond⟩

theorem judged_require {check : Prop} [Decidable check] {f : Unit → DispatchScript β}
    (h : check → Judged ops (f ()) cond) : Judged ops (require check >>= f) (check → cond) :=
  judged_unlessErr h

theorem judged_okOr {option : Option α} {reason : DispatchStop} {f : α → DispatchScript β} {cond : α → Prop}
    (h : ∀ value, option = some value → Judged ops (f value) (cond value)) :
    Judged ops (Script.lift (okOr option reason) >>= f) (∀ value, option = some value → cond value) :=
  .step (Script.silent_lift _) (fun _ => by rw [Store.outcome_lift, okOr_ok]) h

theorem judged_ref {index : Nat} {f : Binding → DispatchScript β} {cond : Binding → Prop}
    (h : ∀ binding, refs[index]? = some binding → Judged ops (f binding) (cond binding)) :
    Judged ops (ref refs index >>= f) (∀ binding, refs[index]? = some binding → cond binding) :=
  judged_okOr h

theorem judged_mapError {ε : Type} {x : Except ε α} {g : ε → DispatchStop} {f : α → DispatchScript β}
    {cond : α → Prop} (h : ∀ value, x = .ok value → Judged ops (f value) (cond value)) :
    Judged ops (Script.lift (x.mapError g) >>= f) (∀ value, x = .ok value → cond value) :=
  .step (Script.silent_lift _) (fun _ => by rw [Store.outcome_lift, mapError_ok]) h

theorem judged_orRefuse {x : Except String α} {f : α → DispatchScript β} {cond : α → Prop}
    (h : ∀ value, x = .ok value → Judged ops (f value) (cond value)) :
    Judged ops (orRefuse x >>= f) (∀ value, x = .ok value → cond value) :=
  judged_mapError h

theorem judged_planned {x : Planner α} {f : α → DispatchScript β} {cond : α → Prop}
    (h : ∀ value, x = .ok value → Judged ops (f value) (cond value)) :
    Judged ops (planned x >>= f) (∀ value, x = .ok value → cond value) :=
  judged_mapError h

theorem judged_caught {x : Planner α} {f : α → DispatchScript β} {cond : α → Prop}
    (h : ∀ value, x = .ok value → Judged ops (f value) (cond value)) :
    Judged ops (caught x >>= f) (∀ value, x = .ok value → cond value) :=
  judged_mapError h

theorem judged_ofStatus {x : Except Status α} {f : α → DispatchScript β} {cond : α → Prop}
    (h : ∀ value, x = .ok value → Judged ops (f value) (cond value)) :
    Judged ops (ofStatus x >>= f) (∀ value, x = .ok value → cond value) :=
  judged_mapError h

/-- Checks that decide on one address. -/
theorem judged_address {script : DispatchScript Nat} {accepted : Prop} {address : Nat}
    {f : Nat → DispatchScript β} (hsilent : script.Silent)
    (hok : ∀ value, (recording Programs).outcome ops script = .ok value ↔ accepted ∧ value = address)
    (h : accepted → Judged ops (f address) cond) : Judged ops (script >>= f) (accepted → cond) :=
  (Judged.step hsilent hok fun _ haccepted => haccepted.2 ▸ h haccepted.1).congr
    ⟨fun hcond haccepted => hcond address ⟨haccepted, rfl⟩, fun hcond _ haccepted => hcond haccepted.1⟩

/-- Whatever a check lets through is refused without a mark, so the script is. -/
theorem Judged.skip {script : DispatchScript α} {f : α → DispatchScript β} (hsilent : script.Silent)
    (h : ∀ value, Judged ops (f value) True) : Judged ops (script >>= f) True :=
  (Store.Judges.bind hsilent fun mid _ => h mid).congr (by simp)

/-- A script that ends in a value or in a panic. -/
def NeverRefuses (script : DispatchScript α) : Prop :=
  ∀ (ops : Recording) stop, stop.Returned → (recording Programs).outcome ops script ≠ .error stop

theorem neverRefuses_unguarded {x : Planner α} {f : α → DispatchScript β}
    (h : ∀ value, NeverRefuses (f value)) : NeverRefuses (unguarded x >>= f) := by
  intro ops stop hreturned hrefused
  unfold unguarded at hrefused
  rw [Store.outcome_bind, Store.outcome_lift] at hrefused
  cases x with
  | error reason =>
    cases reason <;>
    · cases hrefused
      exact hreturned
  | ok value => exact h value ops stop hreturned hrefused

/-- The lookup of an operand marks the recording or not. Where it finds no cube, what follows is judged. -/
theorem judged_featureInput {binding : Binding} {geometry : CubeGeometry} {looksUp declared : Bool}
    {f : Option OutputCube → DispatchScript β} (h : Judged ops (f none) cond) :
    Judged ops (featureInput binding geometry looksUp declared >>= f)
      ((DispatchOperand.feature binding geometry looksUp declared).Unmarked ops ∧
        ((DispatchOperand.feature binding geometry looksUp declared).Unchained ops → cond)) := by
  intro stop hreturned hstop
  have hoperand : (∀ read ∈ (DispatchOperand.feature binding geometry looksUp declared).reads ops,
      mark ops read = ops) ↔ (DispatchOperand.feature binding geometry looksUp declared).Unmarked ops :=
    forall₂_congr fun read _ => mark_eq_iff read
  rw [Store.outcome_bind, outcome_featureInput] at hstop
  unfold Store.Unmarked
  rw [Store.asked_bind, asked_featureInput, outcome_featureInput, List.forall_mem_append, recording_mark,
    hoperand]
  cases looksUp with
  | false => exact and_congr_right fun _ => (h stop hreturned hstop).trans true_imp_iff.symm
  | true =>
    unfold DispatchOperand.Unmarked DispatchOperand.Unchained DispatchOperand.reads
    simp only [if_true] at hstop ⊢
    cases hanswer : answer ops (.chain binding geometry declared) with
    | error reason => simp
    | ok found =>
      rw [hanswer] at hstop
      cases found with
      | some cube =>
        have hmarked : ¬ Untouched ops (.chain binding geometry declared) := fun huntouched =>
          huntouched cube hanswer
        simp [hmarked]
      | none =>
        refine and_congr_right fun _ => (h stop hreturned hstop).trans ?_
        exact ⟨fun hcond _ => hcond, fun hcond => hcond rfl⟩

/-- The last lookup of a script. -/
theorem judged_lastInput {binding : Binding} {geometry : CubeGeometry} {looksUp declared : Bool}
    {f : Option OutputCube → DispatchScript β} (h : Judged ops (f none) True) :
    Judged ops (featureInput binding geometry looksUp declared >>= f)
      ((DispatchOperand.feature binding geometry looksUp declared).Unmarked ops) :=
  (judged_featureInput h).congr (and_iff_left fun _ => trivial)

/-- What follows the lookup is not refused, and a lookup that is asks nothing. -/
theorem judged_quietInput {binding : Binding} {geometry : CubeGeometry} {declared : Bool}
    {f : Option OutputCube → DispatchScript β} (h : ∀ chained, NeverRefuses (f chained)) :
    Judged ops (featureInput binding geometry true declared >>= f) True := by
  intro stop hreturned hstop
  rw [Store.outcome_bind, outcome_featureInput, if_pos rfl] at hstop
  unfold Store.Unmarked
  rw [Store.asked_bind, asked_featureInput, outcome_featureInput, if_pos rfl]
  unfold DispatchOperand.reads
  cases hanswer : answer ops (.chain binding geometry declared) with
  | error reason => simp [hanswer]
  | ok chained =>
    rw [hanswer] at hstop
    exact absurd hstop (h chained ops stop hreturned)

theorem judged_noteDense {binding : Binding} {f : Unit → DispatchScript β} (h : Judged ops (f ()) cond) :
    Judged ops (noteDense binding >>= f) ((DispatchOperand.dense binding).Unmarked ops ∧ cond) := by
  intro stop hreturned hstop
  have hdense : (∀ read ∈ (DispatchOperand.dense binding).reads ops, mark ops read = ops) ↔
      (DispatchOperand.dense binding).Unmarked ops :=
    forall₂_congr fun read _ => mark_eq_iff read
  unfold Store.Unmarked
  rw [Store.asked_bind, List.forall_mem_append]
  exact and_congr hdense (h stop hreturned hstop)

theorem judged_elementwiseOperand {binding : Binding} {cube : CubeGeometry} {declared : Bool} {slot : Slot}
    {f : Nat → DispatchScript β} (h : ∀ address, Judged ops (f address) cond) :
    Judged ops (elementwiseOperand ctx binding cube declared slot >>= f)
      ((DispatchOperand.feature binding cube true declared).Unmarked ops ∧
        ((DispatchOperand.feature binding cube true declared).Unchained ops →
          Fits (denseSize cube) binding → cond)) := by
  unfold elementwiseOperand
  rw [bind_assoc]
  refine judged_featureInput ?_
  dsimp only
  rw [bind_assoc]
  exact judged_require fun _ => h _

/-- The last operand of a script. -/
theorem judged_lastOperand {binding : Binding} {cube : CubeGeometry} {declared : Bool} {slot : Slot}
    {f : Nat → DispatchScript β} (h : ∀ address, (f address).Silent) :
    Judged ops (elementwiseOperand ctx binding cube declared slot >>= f)
      ((DispatchOperand.feature binding cube true declared).Unmarked ops) :=
  (judged_elementwiseOperand fun address => .silent (h address)).congr
    (and_iff_left fun _ _ => trivial)

end Steps

/-! ### Arms -/

section Arms

variable {β : Type} {bytes : Bytes}

theorem unaryArm_judged (executable : ElementwiseUnaryExecutable) :
    Judged ops (unaryArm ctx bytes refs executable) (UnaryUnmarked bytes refs ops executable) := by
  refine judged_orRefuse fun shape _ => judged_ofStatus fun cube _ => judged_require fun _ =>
    judged_ref fun input _ => judged_lastOperand fun address => ?_
  simp [Script.Silent, ref]

theorem lutArm_judged (executable : ElementwiseLutExecutable) :
    Judged ops (lutArm ctx bytes refs executable) (LutUnmarked bytes refs ops executable) := by
  refine judged_orRefuse fun shape _ => judged_ofStatus fun cube _ => judged_require fun _ =>
    judged_ref fun input _ => judged_lastOperand fun address => ?_
  simp [Script.Silent, ref]

theorem binaryArm_judged (executable : ElementwiseBinaryExecutable) :
    Judged ops (binaryArm ctx bytes refs executable) (BinaryUnmarked bytes refs ops executable) := by
  refine judged_orRefuse fun shape _ => judged_ofStatus fun cube _ => judged_require fun _ =>
    judged_ref fun first _ => judged_elementwiseOperand fun _ => judged_ref fun second _ =>
      judged_lastOperand fun address => ?_
  simp [Script.Silent, ref]

theorem poolingArm_judged (executable : PoolingExecutable) :
    Judged ops (poolingArm ctx bytes refs executable) True := by
  unfold poolingArm
  -- everything a pool can be refused for stands before the lookup of its input
  iterate 10 refine Judged.skip (Script.silent_lift _) fun _ => ?_
  refine judged_quietInput fun chained => neverRefuses_unguarded fun tasks => ?_
  intro ops stop _ hrefused
  cases hrefused

theorem matmulInputScratch_ok {shape : Fc.Shape} {geometry : CubeGeometry} (scratchBytes : Nat) :
    (recording Programs).outcome ops (matmulInputScratch shape geometry) = .ok scratchBytes ↔
      (if 1 < shape.k then (nc1hwc2StorageSize shape.m geometry.packedBytesPerPixel).toOption
        else checkedMul shape.m geometry.bytesPerPixel) = some scratchBytes := by
  unfold matmulInputScratch orRefuse
  split_ifs with hpacks
  · rw [Store.outcome_lift, mapError_ok]
    cases nc1hwc2StorageSize shape.m geometry.packedBytesPerPixel <;> simp [Except.toOption]
  · rw [Store.outcome_lift, okOr_ok]

theorem matmulArm_judged (executable : MatmulExecutable) :
    Judged ops (matmulArm ctx bytes refs executable) (MatmulUnmarked bytes refs ops executable) := by
  refine judged_orRefuse fun shape _ => judged_require fun _ => judged_ref fun input _ =>
    judged_ref fun weights _ => judged_ref fun bias _ => judged_ref fun output _ =>
    judged_planned fun inputGeometry _ => judged_planned fun outputGeometry _ => judged_require fun _ =>
    Judged.step (matmulInputScratch_silent _ _) (fun scratchBytes => ?_) fun scratchBytes _ =>
    judged_require fun _ => judged_lastInput ?_
  · exact matmulInputScratch_ok scratchBytes
  -- what is left of the checks asks nothing, and once it asks it is not refused
  refine Judged.skip (matmulWeights_silent _ _ _) fun _ => Judged.skip (matmulBias_silent _ _) fun _ =>
    Judged.skip (Script.silent_lift _) fun _ => Judged.skip (Script.silent_lift _) fun _ =>
    Judged.skip (Script.silent_lift _) fun _ => .never fun stop _ hrefused => ?_
  cases hrefused

theorem convWeights_ok {executable : Conv2dExecutable} {shape : Shape} {kernels : Kernels}
    {weights : Binding} (address : Nat) :
    (recording Programs).outcome ops (convWeights ctx executable shape kernels weights) = .ok address ↔
      WeightsAccepted executable shape kernels weights ∧ address = weightsAddress ctx executable weights := by
  unfold convWeights WeightsAccepted weightsAddress require planned orRefuse unguarded
  split_ifs <;>
    simp only [Store.outcome_bind, Store.outcome_lift, Store.outcome_pure, bind_ok, mapError_ok, unlessErr_ok,
      Except.ok.injEq]
  · constructor
    · rintro ⟨bytes, hbytes, _, hlength, haddress⟩
      exact ⟨⟨bytes, hbytes, hlength⟩, haddress.symm⟩
    · rintro ⟨⟨bytes, hbytes, hlength⟩, haddress⟩
      exact ⟨bytes, hbytes, (), hlength, haddress.symm⟩
  · constructor
    · rintro ⟨_, hfits, programming, hok, haddress⟩
      exact ⟨⟨hfits, programming, hok⟩, haddress.symm⟩
    · rintro ⟨⟨hfits, programming, hok⟩, haddress⟩
      exact ⟨(), hfits, programming, hok, haddress.symm⟩
  · constructor
    · rintro ⟨_, hfits, bytes, hok, haddress⟩
      exact ⟨⟨hfits, bytes, hok⟩, haddress.symm⟩
    · rintro ⟨⟨hfits, bytes, hok⟩, haddress⟩
      exact ⟨(), hfits, bytes, hok, haddress.symm⟩

theorem convBias_ok {shape : Shape} {bias : Binding} (address : Nat) :
    (recording Programs).outcome ops (convBias ctx shape bias) = .ok address ↔
      BiasAccepted shape bias ∧ address = biasAddress ctx shape bias := by
  unfold convBias BiasAccepted biasAddress require orRefuse
  cases shape.precision <;>
    simp only [Store.outcome_bind, Store.outcome_lift, Store.outcome_pure, bind_ok, mapError_ok, unlessErr_ok,
      Except.ok.injEq, true_and]
  case fp16 =>
    constructor
    · rintro ⟨_, hfits, bytes, hok, haddress⟩
      exact ⟨⟨hfits, bytes, hok⟩, haddress.symm⟩
    · rintro ⟨⟨hfits, bytes, hok⟩, haddress⟩
      exact ⟨(), hfits, bytes, hok, haddress.symm⟩
  case int8 | int8Accumulator =>
    constructor
    · rintro ⟨_, hfits, haddress⟩
      exact ⟨hfits, haddress.symm⟩
    · rintro ⟨hfits, haddress⟩
      exact ⟨(), hfits, haddress.symm⟩
  all_goals exact eq_comm

theorem convInput_silent {shape : Shape} {geometry : CubeGeometry} {input : Binding} :
    Script.Silent (if decide (shape.layout = .surfaces) = true then do
        let _ ← orRefuse (nc1hwc2StorageSize geometry.pixelCount geometry.packedBytesPerPixel)
        pure (ctx.scratchAddress .input)
      else pure (stageDirect ctx input .input) : DispatchScript Nat) := by
  unfold Script.Silent
  split_ifs <;> simp

theorem convInput_ok {shape : Shape} {geometry : CubeGeometry} {input : Binding} (address : Nat) :
    (recording Programs).outcome ops (if decide (shape.layout = .surfaces) = true then do
        let _ ← orRefuse (nc1hwc2StorageSize geometry.pixelCount geometry.packedBytesPerPixel)
        pure (ctx.scratchAddress .input)
      else pure (stageDirect ctx input .input)) = .ok address ↔
      InputAccepted shape geometry ∧ address = inputAddress ctx shape input := by
  unfold InputAccepted inputAddress orRefuse
  by_cases hsurfaces : shape.layout = .surfaces
  · simp only [hsurfaces, decide_true, if_true, Store.outcome_bind, Store.outcome_lift, Store.outcome_pure,
      bind_ok, mapError_ok, Except.ok.injEq, true_imp_iff]
    exact ⟨fun ⟨bytes, hok, haddress⟩ => ⟨⟨bytes, hok⟩, haddress.symm⟩,
      fun ⟨⟨bytes, hok⟩, haddress⟩ => ⟨bytes, hok, haddress.symm⟩⟩
  · simp [hsurfaces, eq_comm]

/-- The skip is the last operand that a residual sum resolves. -/
theorem residualEpilogue_judged {executable : Conv2dExecutable} {shape : Shape} {kernels : Kernels}
    {layout : DispatchLayout} {scratchBytes : Nat} {skip output : Binding}
    {f : List RegCmd × CubeGeometry → DispatchScript β} (h : ∀ sum, (f sum).Silent) :
    Judged ops (residualEpilogue ctx executable shape kernels layout scratchBytes skip output >>= f)
      (∀ cube, elementwiseCube (shape.outputWidth kernels) (shape.outputHeight kernels) shape.outChannels 2 =
        .ok cube → ∀ bytes, cube.storageBytes = .ok bytes → bytes = scratchBytes →
        (DispatchOperand.feature skip cube true (layout.inputPacked 3)).Unmarked ops) := by
  unfold residualEpilogue
  simp only [bind_assoc]
  refine judged_ofStatus fun cube _ => judged_planned fun bytes _ => judged_unlessErr fun _ =>
    judged_lastInput (.silent ?_)
  unfold Script.Silent
  simp only [Script.every_bind, every_require, every_unguarded, Script.every_pure]
  exact fun _ _ _ => h _

theorem convArm_judged (executable : Conv2dExecutable) :
    Judged ops (convArm ctx bytes refs executable) (ConvUnmarked ctx bytes refs ops executable) := by
  refine judged_orRefuse fun resolved _ => ?_
  obtain ⟨shape, kernels⟩ := resolved
  refine judged_require fun _ => judged_require fun _ => judged_ref fun input _ =>
    judged_ref fun weights _ => judged_ref fun bias _ => judged_ref fun output _ =>
    judged_planned fun geometry _ => judged_require fun _ => ?_
  unfold convInput
  simp only [bind_assoc]
  refine judged_featureInput (judged_noteDense (judged_noteDense ?_))
  refine judged_address convInput_silent convInput_ok fun _ =>
    judged_address (convWeights_silent _ _ _ _) convWeights_ok fun _ =>
    judged_address (convBias_silent _ _) convBias_ok fun _ =>
    judged_caught fun tasks _ => judged_planned fun outputGeometry _ => ?_
  by_cases hadd : executable.epilogueAdd = true
  · rw [if_pos hadd]
    exact (judged_ref fun skip _ => residualEpilogue_judged fun _ => Script.silent_pure _).congr
      ⟨fun hcond _ => hcond, fun hcond => hcond hadd⟩
  · rw [if_neg hadd]
    exact (Store.Judges.silent (Script.silent_pure _)).congr (iff_of_true trivial fun h => absurd h hadd)

end Arms

/-- **A call that is refused leaves the recording as it was exactly when it resolved no operand with a mark
before the check that refuses it.** -/
theorem refused_unchanged_iff (h : (dispatch ctx ukernel constants refs ops).1 = .error stop)
    (hreturned : stop.Returned) :
    (dispatch ctx ukernel constants refs ops).2 = ops ↔ LeavesNoMark ctx refs ops ukernel constants := by
  have hjudged : Judged ops (dispatchImpl ctx ukernel constants refs)
      (LeavesNoMark ctx refs ops ukernel constants) := by
    refine judged_okOr fun bytes _ => judged_unlessErr fun _ => ?_
    cases ukernel with
    | conv2d executable => exact convArm_judged executable
    | matmul executable scales => exact matmulArm_judged executable
    | pooling executable => exact poolingArm_judged executable
    | elementwiseUnary executable => exact unaryArm_judged executable
    | elementwiseBinary executable => exact binaryArm_judged executable
    | elementwiseLut executable => exact lutArm_judged executable
  rw [dispatch_ops h, Store.run_unchanged_iff]
  exact hjudged stop hreturned (dispatch_error_iff.mp h)

/-- A context alone on its file, whose buffers are one page each. -/
def soloContext : Context where
  home := true
  siblings := 0
  scratch
    | .input => 101 | .operand => 102 | .weights => 103 | .bias => 104
    | .output => 105 | .residual => 106 | .sum => 107
  address handle := 4096 * handle
  replica _ := ⟨0, 0, 0, 0⟩
  floats := ⟨id, fun _ => .nan⟩
  banks _ := ([], [])

/-- One pixel of sixteen channels, with a layout word. -/
def pixelTemplate : ElementwiseTemplate := ⟨⟨1, 1, 16⟩, [], false, true⟩

def pixelAbs : UkernelShape := .elementwiseUnary ⟨pixelTemplate, .abs, 0⟩

def pixelSum : UkernelShape := .elementwiseBinary ⟨pixelTemplate, .add⟩

/-- One recorded dispatch, whose pixel lies in the buffer at 8192. -/
def onePixel : Recording :=
  (dispatch soloContext pixelAbs (some [0, 0, 1, 0]) [⟨some 4096, 0, 32⟩, ⟨some 8192, 0, 32⟩] []).2

/-- The pixel read again, into a binding one byte short. -/
theorem refused_unchanged_short :
    (dispatch soloContext pixelAbs (some [1, 0, 0, 0]) [⟨some 8192, 0, 32⟩, ⟨some 12288, 0, 31⟩]
        onePixel).2 = onePixel ↔
      LeavesNoMark soloContext [⟨some 8192, 0, 32⟩, ⟨some 12288, 0, 31⟩] onePixel pixelAbs
        (some [1, 0, 0, 0]) :=
  have h : (dispatch soloContext pixelAbs (some [1, 0, 0, 0])
      [⟨some 8192, 0, 32⟩, ⟨some 12288, 0, 31⟩] onePixel).1 = .error (.refused .invalidArgument) := by
    decide +kernel
  refused_unchanged_iff h trivial

/-- A sum whose first operand is chained and whose output is one byte short is refused, with the reader
counted. -/
theorem short_output_counts_reader : ¬ ∀ (ctx : Context) (table : Schema.KernelDef)
    (ukernel : UkernelShape) (constants : Option Bytes) (refs : List Binding) (ops : Recording)
    (status : Status), decodeFlatbufferShape table = .ok ukernel →
      (dispatch ctx ukernel constants refs ops).1 = .error (.refused status) →
        (dispatch ctx ukernel constants refs ops).2 = ops := by
  intro h
  have hunchanged := h soloContext
    (.elementwiseBinary {
      width := 1, height := 1, channels := 16, op := .add, runtimeDimensions := []
      runtimeDenseReaders := false, runtimeLayout := true })
    pixelSum (some [1, 0, 0, 0])
    [⟨some 8192, 0, 32⟩, ⟨some 12288, 0, 32⟩, ⟨some 16384, 0, 31⟩] onePixel .invalidArgument
    (by decide +kernel) (by decide +kernel)
  have hcounted : bookkeeping (dispatch soloContext pixelSum (some [1, 0, 0, 0])
      [⟨some 8192, 0, 32⟩, ⟨some 12288, 0, 32⟩, ⟨some 16384, 0, 31⟩] onePixel).2 ≠
        bookkeeping onePixel := by
    decide +kernel
  exact hcounted (congrArg bookkeeping hunchanged)

end IreeRocket.Driver
