import IreeRocket.Driver.DispatchRecording

/-!
# The operands of a dispatch

Which feature maps a dispatch may read in place, and which buffers it reads densely, follows from its kind,
its bindings and its layout word (`operands`). A dispatch that is recorded resolved each of them once and
read nothing else (`recorded_reads`).
-/

namespace IreeRocket.Driver

open Conv Layout Weights Hal Marking

/-- An operand: a feature map that may be read in place, or a buffer that is read as it is. -/
inductive DispatchOperand
  | feature (binding : Binding) (geometry : CubeGeometry) (looksUp declared : Bool)
  | dense (binding : Binding)
  deriving DecidableEq

namespace DispatchOperand

variable {ω : Type}

/-- What resolving an operand reads: a lookup that finds no cube is followed by a dense read, and one that is
refused is not answered. -/
def reads (ops : List (Recorded ω)) : DispatchOperand → List Read
  | .feature binding geometry true declared =>
    match answer ops (.chain binding geometry declared) with
    | .ok none => [.chain binding geometry declared, .dense binding]
    | .ok (some _) => [.chain binding geometry declared]
    | .error _ => []
  | .feature binding _ false _ | .dense binding => [.dense binding]

/-- Resolving the operand leaves no mark. -/
def Unmarked (ops : List (Recorded ω)) (operand : DispatchOperand) : Prop :=
  ∀ read ∈ operand.reads ops, Untouched ops read

/-- The operand resolves to no cube. -/
def Unchained (ops : List (Recorded ω)) : DispatchOperand → Prop
  | .feature binding geometry true declared => answer ops (.chain binding geometry declared) = .ok none
  | .feature _ _ false _ | .dense _ => True

end DispatchOperand

/-! ### The operands by kind -/

section Operands

variable (constants : Bytes) (refs : List Binding)

/-- The operands of an element-wise dispatch, which are its first bindings. -/
def elementwiseOperands (inputs : Nat) (cube : CubeGeometry) (layout : DispatchLayout) :
    Option (List DispatchOperand) :=
  (List.range inputs).mapM fun i => do
    return .feature (← refs[i]?) cube true (layout.inputPacked i)

/-- The operands of a dispatch, where its shape resolves and its geometries are feature maps. -/
def operands : UkernelShape → Option (List DispatchOperand)
  | .conv2d executable => do
    let (shape, kernels) ← (executable.resolveShape constants).toOption
    let geometry ← (cubeGeometry .conv shape.precision.elementBytes shape.width shape.height
      shape.inChannels).toOption
    let layout := trailingLayout executable.runtimeDenseReaders executable.runtimeLayout constants
    let operands := [.feature (← refs[0]?) geometry (shape.layout = .surfaces) (layout.inputPacked 0),
      .dense (← refs[1]?), .dense (← refs[2]?)]
    if executable.epilogueAdd then
      let cube ← (elementwiseCube (shape.outputWidth kernels) (shape.outputHeight kernels) shape.outChannels
        2).toOption
      return operands ++ [.feature (← refs[3]?) cube true (layout.inputPacked 3)]
    else return operands
  | .matmul executable _ => do
    let shape ← (executable.resolveShape constants).toOption
    let geometry ← (cubeGeometry .matmul shape.precision.elementBytes shape.m 1 shape.k).toOption
    let layout := trailingLayout executable.runtimeDenseReaders executable.runtimeLayout constants
    return [.feature (← refs[0]?) geometry (1 < shape.k) (layout.inputPacked 0), .dense (← refs[1]?),
      .dense (← refs[2]?)]
  | .pooling executable => do
    let shape ← (executable.resolveShape constants).toOption
    let geometry ← (cubeGeometry .pooling shape.precision.elementBytes shape.inputWidth
      shape.inputHeight shape.inputChannels).toOption
    let layout := trailingLayout executable.runtimeDenseReaders executable.runtimeLayout constants
    return [.feature (← refs[0]?) geometry true (layout.inputPacked 0)]
  | .elementwiseUnary executable => do
    let shape ← (executable.resolveShape constants).toOption
    let cube ← (elementwiseCube shape.geometry.width shape.geometry.height shape.geometry.channels
      2).toOption
    elementwiseOperands refs 1 cube
      (trailingLayout executable.runtimeDenseReaders executable.runtimeLayout constants)
  | .elementwiseBinary executable => do
    let shape ← (executable.resolveShape constants).toOption
    let cube ← (elementwiseCube shape.geometry.width shape.geometry.height shape.geometry.channels
      2).toOption
    elementwiseOperands refs 2 cube
      (trailingLayout executable.runtimeDenseReaders executable.runtimeLayout constants)
  | .elementwiseLut executable => do
    let shape ← (executable.resolveShape constants).toOption
    let cube ← (elementwiseCube shape.geometry.width shape.geometry.height shape.geometry.channels
      1).toOption
    elementwiseOperands refs 1 cube
      (trailingLayout executable.runtimeDenseReaders executable.runtimeLayout constants)

end Operands

/-! ### Steps that ask nothing -/

section Steps

variable {ctx : Context} {α : Type} {asks : Read → Prop} {returns : α → Prop}

@[simp] theorem every_require {returns : Unit → Prop} (cond : Prop) [Decidable cond] :
    Script.Every asks returns (require cond) ↔ (cond → returns ()) := by
  unfold require
  rw [Script.every_lift]
  exact ⟨fun h hcond => h () (if_pos hcond), fun h _ hok => h (unlessErr_ok.mp hok)⟩

@[simp] theorem every_orRefuse (x : Except String α) :
    Script.Every asks returns (orRefuse x) ↔ ∀ value, x = .ok value → returns value := by
  unfold orRefuse
  simp only [Script.every_lift, mapError_ok]

@[simp] theorem every_planned (x : Planner α) :
    Script.Every asks returns (planned x) ↔ ∀ value, x = .ok value → returns value := by
  unfold planned
  simp only [Script.every_lift, mapError_ok]

@[simp] theorem every_unguarded (x : Planner α) :
    Script.Every asks returns (unguarded x) ↔ ∀ value, x = .ok value → returns value := by
  unfold unguarded
  simp only [Script.every_lift, mapError_ok]

@[simp] theorem every_caught (x : Planner α) :
    Script.Every asks returns (caught x) ↔ ∀ value, x = .ok value → returns value := by
  unfold caught
  simp only [Script.every_lift, mapError_ok]

@[simp] theorem every_ofStatus (x : Except Status α) :
    Script.Every asks returns (ofStatus x) ↔ ∀ value, x = .ok value → returns value := by
  unfold ofStatus
  simp only [Script.every_lift, mapError_ok]

theorem matmulWeights_silent (executable : MatmulExecutable) (shape : Fc.Shape) (weights : Binding) :
    (matmulWeights ctx executable shape weights).Silent := by
  unfold matmulWeights Script.Silent
  split_ifs <;> simp

theorem matmulBias_silent (shape : Fc.Shape) (bias : Binding) : (matmulBias ctx shape bias).Silent := by
  unfold matmulBias Script.Silent
  split_ifs <;> simp

theorem matmulInputScratch_silent (shape : Fc.Shape) (geometry : CubeGeometry) :
    (matmulInputScratch shape geometry).Silent := by
  unfold matmulInputScratch Script.Silent
  split_ifs <;> simp

theorem convWeights_silent (executable : Conv2dExecutable) (shape : Shape) (kernels : Kernels)
    (weights : Binding) : (convWeights ctx executable shape kernels weights).Silent := by
  unfold convWeights Script.Silent
  split_ifs <;> simp

theorem convBias_silent (shape : Shape) (bias : Binding) : (convBias ctx shape bias).Silent := by
  unfold convBias Script.Silent
  split <;> simp

end Steps

/-! ### What a recorded dispatch reads -/

section Reads

variable {ctx : Context} {ops : Recording} {α β : Type} {f : α → DispatchScript β} {asked : List Read}
  {result : β}

theorem reads_require {cond : Prop} [Decidable cond] {f : Unit → DispatchScript β} :
    (recording Programs).Reads ops (require cond >>= f) asked result ↔
      cond ∧ (recording Programs).Reads ops (f ()) asked result := by
  unfold require
  rw [Store.reads_lift_bind]
  simp only [unlessErr_ok]
  constructor
  · rintro ⟨_, h⟩
    exact h
  · exact fun h => ⟨(), h⟩

theorem reads_orRefuse {x : Except String α} :
    (recording Programs).Reads ops (orRefuse x >>= f) asked result ↔
      ∃ value, x = .ok value ∧ (recording Programs).Reads ops (f value) asked result := by
  unfold orRefuse
  simp only [Store.reads_lift_bind, mapError_ok]

theorem reads_planned {x : Planner α} :
    (recording Programs).Reads ops (planned x >>= f) asked result ↔
      ∃ value, x = .ok value ∧ (recording Programs).Reads ops (f value) asked result := by
  unfold planned
  simp only [Store.reads_lift_bind, mapError_ok]

theorem reads_unguarded {x : Planner α} :
    (recording Programs).Reads ops (unguarded x >>= f) asked result ↔
      ∃ value, x = .ok value ∧ (recording Programs).Reads ops (f value) asked result := by
  unfold unguarded
  simp only [Store.reads_lift_bind, mapError_ok]

theorem reads_caught {x : Planner α} :
    (recording Programs).Reads ops (caught x >>= f) asked result ↔
      ∃ value, x = .ok value ∧ (recording Programs).Reads ops (f value) asked result := by
  unfold caught
  simp only [Store.reads_lift_bind, mapError_ok]

theorem reads_ofStatus {x : Except Status α} :
    (recording Programs).Reads ops (ofStatus x >>= f) asked result ↔
      ∃ value, x = .ok value ∧ (recording Programs).Reads ops (f value) asked result := by
  unfold ofStatus
  simp only [Store.reads_lift_bind, mapError_ok]

theorem reads_ref {refs : List Binding} {index : Nat} {f : Binding → DispatchScript β} :
    (recording Programs).Reads ops (ref refs index >>= f) asked result ↔
      ∃ binding, refs[index]? = some binding ∧
        (recording Programs).Reads ops (f binding) asked result := by
  unfold ref
  simp only [Store.reads_lift_bind, okOr_ok]

/-- A step that asks nothing adds no read. -/
theorem reads_silent {script : DispatchScript α} (hsilent : script.Silent)
    (h : (recording Programs).Reads ops (script >>= f) asked result) :
    ∃ value, (recording Programs).Reads ops (f value) asked result := by
  obtain ⟨value, first, rest, ⟨-, rfl⟩, hrest, rfl⟩ := Store.reads_bind.mp h
  rw [Store.asked_silent hsilent]
  exact ⟨value, hrest⟩

/-- What a step reads, before what the rest does. -/
theorem reads_operand {script : DispatchScript α} {operand : DispatchOperand}
    (hoperand : ∀ first value, (recording Programs).Reads ops script first value → first = operand.reads ops)
    (h : (recording Programs).Reads ops (script >>= f) asked result) :
    ∃ value rest, (recording Programs).Reads ops (f value) rest result ∧ asked = operand.reads ops ++ rest := by
  obtain ⟨value, first, rest, hfirst, hrest, rfl⟩ := Store.reads_bind.mp h
  exact ⟨value, rest, hrest, by rw [hoperand first value hfirst]⟩

theorem noteDense_reads {binding : Binding} {u : Unit}
    (h : (recording Programs).Reads ops (noteDense binding) asked u) :
    asked = (DispatchOperand.dense binding).reads ops := h.2.symm

theorem outcome_featureInput (ops : Recording) (binding : Binding) (geometry : CubeGeometry)
    (looksUp declared : Bool) :
    (recording Programs).outcome ops (featureInput binding geometry looksUp declared) =
      if looksUp then answer ops (.chain binding geometry declared) else .ok none := by
  unfold featureInput
  cases looksUp with
  | false => rfl
  | true =>
    simp only [if_true, Store.outcome_bind, chainable, Store.outcome_query, recording_answer]
    cases answer ops (.chain binding geometry declared) with
    | error stop => rfl
    | ok cube => cases cube <;> rfl

theorem asked_featureInput (ops : Recording) (binding : Binding) (geometry : CubeGeometry)
    (looksUp declared : Bool) :
    (recording Programs).asked ops (featureInput binding geometry looksUp declared) =
      (DispatchOperand.feature binding geometry looksUp declared).reads ops := by
  unfold featureInput
  cases looksUp with
  | false => rfl
  | true =>
    simp only [if_true, Store.asked_bind, chainable, Store.outcome_query, Store.asked_query,
      recording_answer, DispatchOperand.reads]
    cases answer ops (.chain binding geometry declared) with
    | error stop => rfl
    | ok cube => cases cube <;> rfl

theorem featureInput_reads {binding : Binding} {geometry : CubeGeometry} {looksUp declared : Bool}
    {chained : Option OutputCube}
    (h : (recording Programs).Reads ops (featureInput binding geometry looksUp declared) asked chained) :
    asked = (DispatchOperand.feature binding geometry looksUp declared).reads ops := by
  rw [← h.2, asked_featureInput]

theorem elementwiseOperand_reads {binding : Binding} {cube : CubeGeometry} {declared : Bool} {slot : Slot}
    {address : Nat}
    (h : (recording Programs).Reads ops (elementwiseOperand ctx binding cube declared slot) asked address) :
    asked = (DispatchOperand.feature binding cube true declared).reads ops := by
  unfold elementwiseOperand at h
  obtain ⟨chained, rest, hrest, rfl⟩ := reads_operand (fun _ _ => featureInput_reads) h
  cases chained with
  | some producer =>
    obtain ⟨-, rfl⟩ := Store.reads_pure.mp hrest
    exact List.append_nil _
  | none =>
    obtain ⟨-, rfl⟩ := Store.reads_pure.mp (reads_require.mp hrest).2
    exact List.append_nil _

theorem convInput_reads {shape : Shape} {geometry : CubeGeometry} {declared : Bool}
    {input weights bias : Binding} {address : Nat}
    (h : (recording Programs).Reads ops (convInput ctx shape geometry declared input weights bias) asked
      address) :
    asked = (DispatchOperand.feature input geometry (shape.layout = .surfaces) declared).reads ops ++
      ((DispatchOperand.dense weights).reads ops ++ (DispatchOperand.dense bias).reads ops) := by
  unfold convInput at h
  obtain ⟨chained, _, hnotes, rfl⟩ := reads_operand (fun _ _ => featureInput_reads) h
  obtain ⟨_, _, hnote, rfl⟩ := reads_operand (fun _ _ => noteDense_reads) hnotes
  obtain ⟨_, rest, hrest, rfl⟩ := reads_operand (fun _ _ => noteDense_reads) hnote
  -- only the address is left
  cases chained with
  | some cube =>
    obtain ⟨-, rfl⟩ := Store.reads_pure.mp hrest
    rw [List.append_nil]
  | none =>
    dsimp only at hrest
    split_ifs at hrest
    · obtain ⟨_, -, hrest⟩ := reads_orRefuse.mp hrest
      obtain ⟨-, rfl⟩ := Store.reads_pure.mp hrest
      rw [List.append_nil]
    · obtain ⟨-, rfl⟩ := Store.reads_pure.mp hrest
      rw [List.append_nil]

variable {constants : Bytes} {refs : List Binding} {record : DispatchRecord Programs}

theorem unaryArm_reads {executable : ElementwiseUnaryExecutable}
    (h : (recording Programs).Reads ops (unaryArm ctx constants refs executable) asked record) :
    ∃ list, operands constants refs (.elementwiseUnary executable) = some list ∧
      asked = list.flatMap (DispatchOperand.reads ops) := by
  unfold unaryArm at h
  generalize hlayout : trailingLayout _ _ constants = layout at h
  simp only [reads_orRefuse, reads_ofStatus, reads_require, reads_ref] at h
  obtain ⟨shape, hshape, cube, hcube, -, input, hinput, hoperand⟩ := h
  obtain ⟨_, rest, hrest, rfl⟩ := reads_operand (fun _ _ => elementwiseOperand_reads) hoperand
  simp only [reads_ref, reads_require, reads_unguarded, Store.reads_pure] at hrest
  obtain ⟨_, -, -, _, -, -, rfl⟩ := hrest
  refine ⟨[.feature input cube true (layout.inputPacked 0)], ?_, ?_⟩
  · simp [operands, elementwiseOperands, hshape, hcube, hinput, Except.toOption, hlayout]
  · simp

theorem lutArm_reads {executable : ElementwiseLutExecutable}
    (h : (recording Programs).Reads ops (lutArm ctx constants refs executable) asked record) :
    ∃ list, operands constants refs (.elementwiseLut executable) = some list ∧
      asked = list.flatMap (DispatchOperand.reads ops) := by
  unfold lutArm at h
  generalize hlayout : trailingLayout _ _ constants = layout at h
  simp only [reads_orRefuse, reads_ofStatus, reads_require, reads_ref] at h
  obtain ⟨shape, hshape, cube, hcube, -, input, hinput, hoperand⟩ := h
  obtain ⟨_, rest, hrest, rfl⟩ := reads_operand (fun _ _ => elementwiseOperand_reads) hoperand
  simp only [reads_ref, reads_require, reads_unguarded, Store.reads_pure] at hrest
  obtain ⟨_, -, -, _, -, -, rfl⟩ := hrest
  refine ⟨[.feature input cube true (layout.inputPacked 0)], ?_, ?_⟩
  · simp [operands, elementwiseOperands, hshape, hcube, hinput, Except.toOption, hlayout]
  · simp

theorem binaryArm_reads {executable : ElementwiseBinaryExecutable}
    (h : (recording Programs).Reads ops (binaryArm ctx constants refs executable) asked record) :
    ∃ list, operands constants refs (.elementwiseBinary executable) = some list ∧
      asked = list.flatMap (DispatchOperand.reads ops) := by
  unfold binaryArm at h
  generalize hlayout : trailingLayout _ _ constants = layout at h
  simp only [reads_orRefuse, reads_ofStatus, reads_require, reads_ref] at h
  obtain ⟨shape, hshape, cube, hcube, -, first, hfirst, hoperands⟩ := h
  obtain ⟨_, _, hnext, rfl⟩ := reads_operand (fun _ _ => elementwiseOperand_reads) hoperands
  obtain ⟨second, hsecond, hoperand⟩ := reads_ref.mp hnext
  obtain ⟨_, rest, hrest, rfl⟩ := reads_operand (fun _ _ => elementwiseOperand_reads) hoperand
  simp only [reads_ref, reads_require, reads_unguarded, Store.reads_pure] at hrest
  obtain ⟨_, -, -, _, -, -, rfl⟩ := hrest
  refine ⟨[.feature first cube true (layout.inputPacked 0), .feature second cube true (layout.inputPacked 1)], ?_, ?_⟩
  · simp [operands, elementwiseOperands, hshape, hcube, hfirst, hsecond, Except.toOption, hlayout, List.range_succ]
  · simp

theorem poolingArm_reads {executable : PoolingExecutable}
    (h : (recording Programs).Reads ops (poolingArm ctx constants refs executable) asked record) :
    ∃ list, operands constants refs (.pooling executable) = some list ∧
      asked = list.flatMap (DispatchOperand.reads ops) := by
  unfold poolingArm at h
  generalize hlayout : trailingLayout _ _ constants = layout at h
  simp only [reads_orRefuse, reads_planned, reads_require, reads_ref] at h
  obtain ⟨shape, hshape, -, input, hinput, _, -, geometry, hgeometry, _, -, -, _, -, _, -, -, hoperand⟩ := h
  obtain ⟨_, rest, hrest, rfl⟩ := reads_operand (fun _ _ => featureInput_reads) hoperand
  simp only [reads_unguarded, Store.reads_pure] at hrest
  obtain ⟨_, -, -, rfl⟩ := hrest
  refine ⟨[.feature input geometry true (layout.inputPacked 0)], ?_, ?_⟩
  · simp [operands, hshape, hgeometry, hinput, Except.toOption, hlayout]
  · simp

theorem matmulArm_reads {executable : MatmulExecutable} {scales : Option ExecutableFormat.Scales}
    (h : (recording Programs).Reads ops (matmulArm ctx constants refs executable) asked record) :
    ∃ list, operands constants refs (.matmul executable scales) = some list ∧
      asked = list.flatMap (DispatchOperand.reads ops) := by
  unfold matmulArm at h
  generalize hlayout : trailingLayout _ _ constants = layout at h
  simp only [reads_orRefuse, reads_planned, reads_require, reads_ref] at h
  obtain ⟨shape, hshape, -, input, hinput, weights, hweights, bias, hbias, _, -, geometry, hgeometry, _, -, -,
    hscratch⟩ := h
  obtain ⟨_, hlookup⟩ := reads_silent (matmulInputScratch_silent _ _) hscratch
  obtain ⟨_, _, hcoefficients, rfl⟩ := reads_operand (fun _ _ => featureInput_reads) (reads_require.mp hlookup).2
  obtain ⟨_, hbiasStep⟩ := reads_silent (matmulWeights_silent _ _ _) hcoefficients
  obtain ⟨_, hplan⟩ := reads_silent (matmulBias_silent _ _) hbiasStep
  simp only [reads_orRefuse, reads_require, reads_caught] at hplan
  obtain ⟨_, -, -, tasks, -, hnotes⟩ := hplan
  obtain ⟨_, _, hnote, rfl⟩ := reads_operand (fun _ _ => noteDense_reads) hnotes
  obtain ⟨_, _, hrest, rfl⟩ := reads_operand (fun _ _ => noteDense_reads) hnote
  obtain ⟨-, rfl⟩ := Store.reads_pure.mp hrest
  refine ⟨[.feature input geometry (1 < shape.k) (layout.inputPacked 0), .dense weights, .dense bias], ?_, ?_⟩
  · simp [operands, hshape, hgeometry, hinput, hweights, hbias, Except.toOption, hlayout]
  · simp

theorem residualEpilogue_reads {executable : Conv2dExecutable} {shape : Shape} {kernels : Kernels}
    {layout : DispatchLayout} {scratchBytes : Nat} {skip output : Binding} {sum : List RegCmd × CubeGeometry}
    (h : (recording Programs).Reads ops
      (residualEpilogue ctx executable shape kernels layout scratchBytes skip output) asked sum) :
    ∃ cube, elementwiseCube (shape.outputWidth kernels) (shape.outputHeight kernels) shape.outChannels 2 =
      .ok cube ∧ asked = (DispatchOperand.feature skip cube true (layout.inputPacked 3)).reads ops := by
  unfold residualEpilogue at h
  simp only [reads_ofStatus, reads_planned, Store.reads_lift_bind] at h
  obtain ⟨cube, hcube, _, -, _, -, hlookup⟩ := h
  obtain ⟨_, _, hrest, rfl⟩ := reads_operand (fun _ _ => featureInput_reads) hlookup
  simp only [reads_require, reads_unguarded, Store.reads_pure] at hrest
  obtain ⟨-, _, -, -, rfl⟩ := hrest
  exact ⟨cube, hcube, List.append_nil _⟩

theorem convArm_reads {executable : Conv2dExecutable}
    (h : (recording Programs).Reads ops (convArm ctx constants refs executable) asked record) :
    ∃ list, operands constants refs (.conv2d executable) = some list ∧
      asked = list.flatMap (DispatchOperand.reads ops) := by
  unfold convArm at h
  generalize hlayout : trailingLayout _ _ constants = layout at h
  simp only [reads_orRefuse, reads_planned, reads_require, reads_ref] at h
  obtain ⟨⟨shape, kernels⟩, hshape, -, -, input, hinput, weights, hweights, bias, hbias, output, -, geometry,
    hgeometry, -, hstaging⟩ := h
  dsimp only at hgeometry hstaging
  obtain ⟨_, first, rest, hfirst, hcoefficients, rfl⟩ := Store.reads_bind.mp hstaging
  rw [convInput_reads hfirst]
  obtain ⟨_, hbiasStep⟩ := reads_silent (convWeights_silent _ _ _ _) hcoefficients
  obtain ⟨_, hplan⟩ := reads_silent (convBias_silent _ _) hbiasStep
  simp only [reads_caught, reads_planned] at hplan
  obtain ⟨⟨tasks, replicas⟩, -, outputGeometry, -, hend⟩ := hplan
  dsimp only at hend
  by_cases hadd : executable.epilogueAdd = true
  · rw [if_pos hadd] at hend
    obtain ⟨skip, hskip, hsum⟩ := reads_ref.mp hend
    obtain ⟨sum, last, _, hlast, hrecord, rfl⟩ := Store.reads_bind.mp hsum
    obtain ⟨cube, hcube, rfl⟩ := residualEpilogue_reads hlast
    obtain ⟨-, rfl⟩ := Store.reads_pure.mp hrecord
    refine ⟨[.feature input geometry (shape.layout = .surfaces) (layout.inputPacked 0), .dense weights,
      .dense bias, .feature skip cube true (layout.inputPacked 3)], ?_, ?_⟩
    · simp [operands, hshape, hgeometry, hinput, hweights, hbias, hadd, hcube, hskip, Except.toOption, hlayout]
    · simp
  · rw [if_neg hadd] at hend
    obtain ⟨-, rfl⟩ := Store.reads_pure.mp hend
    refine ⟨[.feature input geometry (shape.layout = .surfaces) (layout.inputPacked 0), .dense weights,
      .dense bias], ?_, ?_⟩
    · simp [operands, hshape, hgeometry, hinput, hweights, hbias, hadd, Except.toOption, hlayout]
    · simp

/-- **A dispatch that is recorded resolves each of its operands once, and reads nothing else.** -/
theorem recorded_reads {ukernel : UkernelShape} {constants : Option Bytes}
    (h : (recording Programs).Reads ops (dispatchImpl ctx ukernel constants refs) asked record) :
    ∃ bytes list, constants = some bytes ∧ operands bytes refs ukernel = some list ∧
      asked = list.flatMap (DispatchOperand.reads ops) := by
  unfold dispatchImpl at h
  simp only [Store.reads_lift_bind, okOr_ok] at h
  obtain ⟨bytes, rfl, _, -, harm⟩ := h
  have hkind : ∃ list, operands bytes refs ukernel = some list ∧
      asked = list.flatMap (DispatchOperand.reads ops) := by
    cases ukernel with
    | conv2d executable => exact convArm_reads harm
    | matmul executable scales => exact matmulArm_reads harm
    | pooling executable => exact poolingArm_reads harm
    | elementwiseUnary executable => exact unaryArm_reads harm
    | elementwiseBinary executable => exact binaryArm_reads harm
    | elementwiseLut executable => exact lutArm_reads harm
  obtain ⟨list, hlist, hasked⟩ := hkind
  exact ⟨bytes, list, rfl, hlist, hasked⟩

end Reads

end IreeRocket.Driver
