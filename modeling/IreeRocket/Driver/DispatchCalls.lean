import IreeRocket.Driver.DispatchOperands
import IreeRocket.Driver.DispatchRefusal
import IreeRocket.Driver.RecordedCalls

/-!
# What every dispatch records

Whatever its executable, its push constants and what is recorded before it, a dispatch that is recorded
publishes a cube of exactly the bytes it compacts, and looks its inputs up with geometries of feature maps
(`dispatch_call`). Each arm promises this by itself. So a command buffer counts, for each of its dispatches,
exactly the operands of later calls that were answered with its cube (`issued_exact`).
-/

namespace IreeRocket.Driver

open Conv Layout Weights Hal Marking

/-- A script whose lookups are for feature maps. -/
abbrev Looks {α : Type} (script : DispatchScript α) : Prop :=
  Script.Every Read.OfFeatureMap (fun _ => True) script

/-- A dispatch arm: it looks up feature maps and records what it promises. -/
abbrev RecordsPromised (script : DispatchScript (DispatchRecord Programs)) : Prop :=
  Script.Every Read.OfFeatureMap Promised script

variable {ctx : Context} {constants : Bytes} {refs : List Binding} {α β : Type}
  {asks : Read → Prop} {returns : α → Prop}

/-! ### Lookups -/

theorem elementwiseCube_built {width height channels elementBytes : Nat} {g : CubeGeometry}
    (h : elementwiseCube width height channels elementBytes = .ok g) : Built g := by
  unfold elementwiseCube orInvalid at h
  simp only [bind_ok, mapError_ok, pure_ok] at h
  obtain ⟨geometry, hgeometry, -, -, -, -, rfl⟩ := h
  exact ⟨_, _, _, _, _, hgeometry⟩

theorem looks_noteDense (binding : Binding) : Looks (noteDense binding) :=
  ⟨trivial, fun _ => trivial⟩

theorem looks_featureInput {binding : Binding} {geometry : CubeGeometry} (hbuilt : Built geometry)
    (looksUp declared : Bool) : Looks (featureInput binding geometry looksUp declared) := by
  cases looksUp with
  | false => exact ⟨trivial, fun _ => trivial⟩
  | true =>
    refine ⟨hbuilt, fun chained => ?_⟩
    cases chained with
    | none => exact ⟨trivial, fun _ => trivial⟩
    | some cube => trivial

/-- A step that looks feature maps up, before a script that does. -/
theorem Looks.bind {returns : β → Prop} {script : DispatchScript α} {f : α → DispatchScript β}
    (h : Looks script) (hnext : ∀ value, Script.Every Read.OfFeatureMap returns (f value)) :
    Script.Every Read.OfFeatureMap returns (script >>= f) :=
  (Script.every_bind script f).mpr (h.mono fun value _ => hnext value)

theorem looks_elementwiseOperand {binding : Binding} {cube : CubeGeometry} (hbuilt : Built cube)
    (declared : Bool) (slot : Slot) : Looks (elementwiseOperand ctx binding cube declared slot) := by
  unfold elementwiseOperand
  refine (looks_featureInput hbuilt true declared).bind fun chained => ?_
  cases chained <;> simp

/-! ### Records -/

theorem recordOf_promised {work : Programs} {output : Binding} {pixelCount bytesPerPixel : Nat}
    {published : Option (Nat × CubeGeometry)} {layout : DispatchLayout}
    (h : ∀ handle geometry, published = some (handle, geometry) → Built geometry ∧
      geometry.pixelCount * geometry.bytesPerPixel = pixelCount * bytesPerPixel) :
    Promised (recordOf work output pixelCount bytesPerPixel published layout) where
  chained := rfl
  unseen := rfl
  published cube hcube := by
    obtain ⟨⟨handle, geometry⟩, hpublished, rfl⟩ := Option.map_eq_some_iff.mp hcube
    obtain ⟨hbuilt, hbytes⟩ := h handle geometry hpublished
    refine ⟨hbuilt, ?_⟩
    change dmaRange output.buffer output.offset (pixelCount * bytesPerPixel) = _
    rw [← hbytes]

theorem elementwiseRecord_promised {commands : List RegCmd} {output : Binding} {cube : CubeGeometry}
    {layout : DispatchLayout} (hbuilt : Built cube) :
    Promised (elementwiseRecord ctx commands output cube layout) := by
  refine recordOf_promised fun handle geometry h => ?_
  split_ifs at h
  cases h
  exact ⟨hbuilt, rfl⟩

/-! ### Arms -/

theorem unaryArm_promised (executable : ElementwiseUnaryExecutable) : RecordsPromised (unaryArm ctx constants refs executable) := by
  unfold unaryArm
  simp only [Script.every_bind, every_orRefuse, every_ofStatus, every_require, ref, Script.every_lift,
    every_unguarded, Script.every_pure]
  intro shape _ cube hcube _ binding _
  have hbuilt := elementwiseCube_built hcube
  exact (looks_elementwiseOperand hbuilt _ _).mono fun address _ output _ _ commands _ =>
    elementwiseRecord_promised hbuilt

theorem binaryArm_promised (executable : ElementwiseBinaryExecutable) :
    RecordsPromised (binaryArm ctx constants refs executable) := by
  unfold binaryArm
  simp only [Script.every_bind, every_orRefuse, every_ofStatus, every_require, ref, Script.every_lift,
    every_unguarded, Script.every_pure]
  intro shape _ cube hcube _ first _
  have hbuilt := elementwiseCube_built hcube
  exact (looks_elementwiseOperand hbuilt _ _).mono fun _ _ second _ =>
    (looks_elementwiseOperand hbuilt _ _).mono fun _ _ output _ _ commands _ =>
      elementwiseRecord_promised hbuilt

theorem lutArm_promised (executable : ElementwiseLutExecutable) : RecordsPromised (lutArm ctx constants refs executable) := by
  unfold lutArm
  simp only [Script.every_bind, every_orRefuse, every_ofStatus, every_require, ref, Script.every_lift,
    every_unguarded, Script.every_pure]
  intro shape _ cube hcube _ binding _
  have hbuilt := elementwiseCube_built hcube
  exact (looks_elementwiseOperand hbuilt _ _).mono fun address _ output _ _ commands _ =>
    elementwiseRecord_promised hbuilt

theorem bytesPerPixel_eq {kind : CubeKind} {elementBytes width height channels : Nat} {g : CubeGeometry}
    (h : cubeGeometry kind elementBytes width height channels = .ok g) :
    g.pixelCount = width * height ∧ g.bytesPerPixel = channels * elementBytes := by
  obtain ⟨-, -, hpixels, -, hbytes, -⟩ := cubeGeometry_ok h
  exact ⟨hpixels, hbytes⟩

theorem poolingArm_promised (executable : PoolingExecutable) : RecordsPromised (poolingArm ctx constants refs executable) := by
  unfold poolingArm
  simp only [Script.every_bind, every_orRefuse, every_planned, every_require, ref, Script.every_lift,
    every_unguarded, Script.every_pure]
  intro shape _ _ input _ output _ inputGeometry hinput outputGeometry houtput _ _ _ _ _ _
  refine (looks_featureInput ⟨_, _, _, _, _, hinput⟩ _ _).mono fun chained _ tasks _ => ?_
  refine recordOf_promised fun handle geometry h => ?_
  split_ifs at h
  cases h
  exact ⟨⟨_, _, _, _, _, houtput⟩, by rw [(bytesPerPixel_eq houtput).2, (bytesPerPixel_eq hinput).2]⟩

theorem looks_matmulWeights (executable : MatmulExecutable) (shape : Fc.Shape) (weights : Binding) :
    Looks (matmulWeights ctx executable shape weights) := by
  unfold matmulWeights
  split_ifs <;> simp

theorem looks_matmulBias (shape : Fc.Shape) (bias : Binding) : Looks (matmulBias ctx shape bias) := by
  unfold matmulBias
  split_ifs <;> simp

theorem looks_matmulInputScratch (shape : Fc.Shape) (geometry : CubeGeometry) :
    Looks (matmulInputScratch shape geometry) := by
  unfold matmulInputScratch
  split_ifs <;> simp

theorem matmulArm_promised (executable : MatmulExecutable) :
    RecordsPromised (matmulArm ctx constants refs executable) := by
  unfold matmulArm
  simp only [Script.every_bind, every_orRefuse, every_planned, every_require, ref, Script.every_lift,
    every_caught, Script.every_pure]
  intro shape _ _ input _ weights _ bias _ output _ inputGeometry hinput outputGeometry houtput _
  refine (looks_matmulInputScratch _ _).mono fun _ _ _ => ?_
  refine (looks_featureInput ⟨_, _, _, _, _, hinput⟩ _ _).mono fun chained _ => ?_
  refine (looks_matmulWeights _ _ _).mono fun _ _ => (looks_matmulBias _ _).mono fun _ _ => ?_
  intro _ _ _ tasks _
  refine (looks_noteDense _).mono fun _ _ => (looks_noteDense _).mono fun _ _ => ?_
  refine recordOf_promised fun handle geometry h => ?_
  split_ifs at h
  cases h
  exact ⟨⟨_, _, _, _, _, houtput⟩, by rw [(bytesPerPixel_eq houtput).1, Nat.mul_one]⟩

theorem looks_convWeights (executable : Conv2dExecutable) (shape : Shape) (kernels : Kernels)
    (weights : Binding) : Looks (convWeights ctx executable shape kernels weights) := by
  unfold convWeights
  split_ifs <;> simp

theorem looks_convBias (shape : Shape) (bias : Binding) : Looks (convBias ctx shape bias) := by
  unfold convBias
  split <;> simp

theorem looks_convInput {shape : Shape} {geometry : CubeGeometry} (hbuilt : Built geometry)
    (declared : Bool) (input weights bias : Binding) :
    Looks (convInput ctx shape geometry declared input weights bias) := by
  unfold convInput
  refine (looks_featureInput hbuilt _ _).bind fun chained => (looks_noteDense _).bind fun _ =>
    (looks_noteDense _).bind fun _ => ?_
  cases chained with
  | some cube => simp
  | none =>
    dsimp only
    split_ifs <;> simp

/-- The cube of a residual sum is built from a feature map. -/
theorem residualEpilogue_built (executable : Conv2dExecutable) (shape : Shape) (kernels : Kernels)
    (layout : DispatchLayout) (scratchBytes : Nat) (skip output : Binding) :
    Script.Every Read.OfFeatureMap (fun (_, cube) => Built cube)
      (residualEpilogue ctx executable shape kernels layout scratchBytes skip output) := by
  unfold residualEpilogue
  simp only [Script.every_bind, every_ofStatus, every_planned, Script.every_lift, every_require,
    every_unguarded, Script.every_pure]
  intro cube hcube _ _ _ _
  have hbuilt := elementwiseCube_built hcube
  exact (looks_featureInput hbuilt _ _).mono fun _ _ _ _ _ => hbuilt

theorem convArm_promised (executable : Conv2dExecutable) :
    RecordsPromised (convArm ctx constants refs executable) := by
  unfold convArm
  simp only [Script.every_bind, every_orRefuse, every_planned, every_require, ref, Script.every_lift,
    every_caught]
  intro shape _ _ _ input _ weights _ bias _ output _ inputGeometry hinput _
  refine (looks_convInput ⟨_, _, _, _, _, hinput⟩ _ _ _ _).mono fun _ _ => ?_
  refine (looks_convWeights _ _ _ _).mono fun _ _ => (looks_convBias _ _).mono fun _ _ => ?_
  intro tasks _ outputGeometry houtput
  split
  · simp only [Script.every_bind, Script.every_lift, Script.every_pure]
    intro skip _
    refine (residualEpilogue_built _ _ _ _ _ _ _).mono fun sum hsum => recordOf_promised fun _ _ h => ?_
    split_ifs at h
    cases h
    exact ⟨hsum, rfl⟩
  · refine recordOf_promised fun _ _ h => ?_
    split_ifs at h
    cases h
    exact ⟨⟨_, _, _, _, _, houtput⟩, rfl⟩

/-- Every arm records what it promises. -/
theorem dispatchImpl_promised (ukernel : UkernelShape) (constants : Option Bytes) :
    RecordsPromised (dispatchImpl ctx ukernel constants refs) := by
  unfold dispatchImpl
  simp only [Script.every_bind, Script.every_lift]
  intro constants _ _ _
  cases ukernel with
  | conv2d executable => exact convArm_promised executable
  | matmul executable => exact matmulArm_promised executable
  | pooling executable => exact poolingArm_promised executable
  | elementwiseUnary executable => exact unaryArm_promised executable
  | elementwiseBinary executable => exact binaryArm_promised executable
  | elementwiseLut executable => exact lutArm_promised executable

/-! ### Requests -/

/-- What a command buffer is asked to record. -/
inductive Request
  | fill (target : Binding) (pattern : List UInt8)
  | update (source : List UInt8) (offset : Nat) (target : Binding)
  | copy (source target : Binding)
  | dispatch (ctx : Context) (ukernel : UkernelShape) (constants : Option Bytes) (refs : List Binding)

namespace Request

/-- What a request reads. -/
def operands : Request → List DispatchOperand
  | .fill _ _ | .update _ _ _ => []
  | .copy source _ => [.dense source]
  | .dispatch _ ukernel constants refs =>
    (constants.bind fun bytes => Driver.operands bytes refs ukernel).getD []

/-- The operation a request records behind these. A dispatch's is recorded without a mark, and marked
later. -/
def Records (ops : Recording) (op : Recorded Programs) : Request → Prop
  | .fill target pattern => pattern.length ≤ 8 ∧ op = .fill target pattern
  | .update source offset target => op = .update target ((source.drop offset).take target.length)
  | .copy source target => source.length = target.length ∧ op = .copy source target
  | .dispatch ctx ukernel constants refs =>
    ∃ record, verdict ctx ukernel constants refs ops = .ok record ∧ op.bare = .dispatch record

/-- The marks on an operation do not tell what was recorded. -/
theorem records_bare (ops : Recording) (op : Recorded Programs) (request : Request) :
    request.Records ops op.bare ↔ request.Records ops op := by
  cases request <;> cases op <;> simp [Records, Recorded.bare]

/-- A request makes a call: it reads its operands and records its operation. -/
structure Makes (ops : Recording) (request : Request) (call : Call Programs) : Prop where
  accepted : Accepted call
  reads : call.reads = request.operands.flatMap (DispatchOperand.reads ops)
  records : request.Records ops call.op

end Request

/-- The dispatch whose cube an operand is read from. -/
def DispatchOperand.chainedTo (ops : Recording) : DispatchOperand → Option Nat
  | .feature binding geometry true declared => Driver.chainedTo ops (.chain binding geometry declared)
  | .feature _ _ false _ | .dense _ => none

/-- The operands, by request and place, that are read from the cube of operation `i`. -/
def answeredOperands (requests : List Request) (ops : Recording) (i : Nat) : List (Nat × Nat) :=
  requests.zipIdx.flatMap fun (request, n) =>
    (request.operands.zipIdx.filter fun (operand, _) => operand.chainedTo (ops.take n) = some i).map
      fun (_, k) => (n, k)

variable {calls : List (Call Programs)} {ops ops' : Recording} {requests : List Request}

theorem Same.verdict (h : Same ops ops') (ukernel : UkernelShape) (constants : Option Bytes) :
    verdict ctx ukernel constants refs ops = verdict ctx ukernel constants refs ops' :=
  Store.outcome_congr (fun read => h.answer read) _

theorem Same.reads (h : Same ops ops') (operand : DispatchOperand) : operand.reads ops = operand.reads ops' := by
  unfold DispatchOperand.reads
  simp only [h.answer]

theorem Same.operandChainedTo (h : Same ops ops') (operand : DispatchOperand) :
    operand.chainedTo ops = operand.chainedTo ops' := by
  unfold DispatchOperand.chainedTo
  simp only [h.chainedTo]

theorem Same.records (h : Same ops ops') (op : Recorded Programs) (request : Request) :
    request.Records ops op ↔ request.Records ops' op := by
  unfold Request.Records
  simp only [h.verdict]

/-- Resolving an operand is one reader of the cube it is read from, and of no other. -/
theorem countP_reads (ops : Recording) (operand : DispatchOperand) (i : Nat) :
    (operand.reads ops).countP (fun read => chainedTo ops read = some i) =
      if operand.chainedTo ops = some i then 1 else 0 := by
  have hdense : ∀ binding, chainedTo ops (.dense binding) ≠ some i := fun _ h => by cases h
  unfold DispatchOperand.reads DispatchOperand.chainedTo
  cases operand with
  | dense binding => rfl
  | feature binding geometry looksUp declared =>
    cases looksUp with
    | false => rfl
    | true =>
      dsimp only
      cases hanswer : answer ops (.chain binding geometry declared) with
      | error stop =>
        have hnone := chainedTo_none fun cube h => by
          rw [hanswer] at h
          cases h
        simp [hnone]
      | ok found =>
        cases found with
        | none =>
          have hnone := chainedTo_none fun cube h => by
            rw [hanswer] at h
            cases h
          simp [hnone, hdense]
        | some cube => simp [List.countP_cons]

theorem countP_operands (ops : Recording) (operands : List DispatchOperand) (i : Nat) :
    (operands.flatMap (DispatchOperand.reads ops)).countP (fun read => chainedTo ops read = some i) =
      operands.countP fun operand => operand.chainedTo ops = some i := by
  induction operands with
  | nil => rfl
  | cons operand operands ih =>
    rw [List.flatMap_cons, List.countP_append, countP_reads, ih, List.countP_cons, Nat.add_comm]
    simp

/-- A dispatch that is recorded is one more call, made by its request. -/
theorem dispatch_call {ukernel : UkernelShape} {constants : Option Bytes}
    (h : dispatch ctx ukernel constants refs (recorded calls) = (.ok (), ops)) :
    ∃ call, (Request.dispatch ctx ukernel constants refs).Makes (recorded calls) call ∧
      ops = recorded (calls ++ [call]) := by
  unfold dispatch at h
  cases hrun : (recording Programs).run (dispatchImpl ctx ukernel constants refs) (recorded calls) with
  | mk verdict marked =>
    rw [hrun] at h
    cases verdict with
    | error stop => cases h
    | ok record =>
      cases h
      obtain ⟨hpromised, hreads, rfl⟩ := Store.run_every (dispatchImpl_promised ukernel constants) hrun
      have houtcome : Driver.verdict ctx ukernel constants refs (recorded calls) = .ok record := by
        have hfst := congrArg Prod.fst hrun
        rwa [Store.run_fst] at hfst
      obtain ⟨bytes, list, rfl, hlist, hasked⟩ := recorded_reads ⟨houtcome, rfl⟩
      have haccepted : Accepted ⟨_, .dispatch record⟩ := .dispatch hreads hpromised
      refine ⟨⟨_, .dispatch record⟩, ⟨haccepted, ?_, record, houtcome, haccepted.fresh⟩, ?_⟩
      · rw [hasked]
        simp [Request.operands, hlist]
      · rw [recorded_append]
        rfl

/-! ### Command buffers -/

/-- What a command buffer holds after requests that each succeeded, whatever their executables and
contexts. -/
inductive Issued : List Request → Recording → Prop
  | empty : Issued [] []
  | fill {requests : List Request} {ops : Recording} {target : Binding} {pattern : List UInt8}
    {call : Call Programs} (h : Issued requests ops) (hcall : fillBuffer target pattern = .ok call) :
    Issued (requests ++ [.fill target pattern]) (call.record ops)
  | update {requests : List Request} {ops : Recording} (h : Issued requests ops) (source : List UInt8)
    (offset : Nat) (target : Binding) :
    Issued (requests ++ [.update source offset target]) ((updateBuffer source offset target).record ops)
  | copy {requests : List Request} {ops : Recording} {source target : Binding} (h : Issued requests ops)
    (hlength : source.length = target.length) :
    Issued (requests ++ [.copy source target]) ((copyBuffer source target).record ops)
  | dispatch {requests : List Request} {ops ops' : Recording} {ctx : Context} {ukernel : UkernelShape}
    {constants : Option Bytes} {refs : List Binding} (h : Issued requests ops)
    (hcall : Driver.dispatch ctx ukernel constants refs ops = (.ok (), ops')) :
    Issued (requests ++ [.dispatch ctx ukernel constants refs]) ops'

/-- Each request made its call, behind what the calls before it recorded. -/
def MadeBy (requests : List Request) (calls : List (Call Programs)) : Prop :=
  requests.length = calls.length ∧ ∀ (n : Nat) (request : Request) (call : Call Programs),
    requests[n]? = some request → calls[n]? = some call → request.Makes (before calls n) call

theorem Same.makes (h : Same ops ops') {request : Request} {call : Call Programs}
    (hmakes : request.Makes ops call) : request.Makes ops' call where
  accepted := hmakes.accepted
  reads := by
    rw [hmakes.reads]
    exact List.flatMap_congr fun operand _ => h.reads operand
  records := (h.records call.op request).mp hmakes.records

theorem MadeBy.append (h : MadeBy requests calls) {request : Request} {call : Call Programs}
    (hmakes : request.Makes (recorded calls) call) : MadeBy (requests ++ [request]) (calls ++ [call]) := by
  obtain ⟨hlength, hmade⟩ := h
  refine ⟨by simp [hlength], fun n request' call' hrequest hcall => ?_⟩
  rcases Nat.lt_trichotomy n calls.length with hlt | rfl | hgt
  · rw [List.getElem?_append_left (hlength ▸ hlt)] at hrequest
    rw [List.getElem?_append_left hlt] at hcall
    have hbefore : before (calls ++ [call]) n = before calls n := by
      unfold before
      rw [List.take_append_of_le_length hlt.le]
    rw [hbefore]
    exact hmade n request' call' hrequest hcall
  · obtain rfl : request = request' := by simpa [← hlength] using hrequest
    obtain rfl : call = call' := by simpa using hcall
    have hbefore : before (calls ++ [call]) calls.length = calls.map Call.op := by simp [before]
    rw [hbefore]
    exact (recorded_same calls).makes hmakes
  · rw [List.getElem?_eq_none (by simp; omega)] at hcall
    cases hcall

theorem Issued.made (h : Issued requests ops) :
    ∃ calls : List (Call Programs), MadeBy requests calls ∧ ops = recorded calls := by
  induction h with
  | empty => exact ⟨[], ⟨rfl, fun _ _ _ h => by cases h⟩, rfl⟩
  | @fill _ _ target pattern call _ hcall ih =>
    obtain ⟨calls, hmade, rfl⟩ := ih
    have haccepted := Accepted.fill hcall
    unfold fillBuffer at hcall
    simp only [bind_ok, unlessErr_ok, pure_ok] at hcall
    obtain ⟨_, hpattern, rfl⟩ := hcall
    exact ⟨_, hmade.append ⟨haccepted, rfl, hpattern, rfl⟩, (recorded_append _ _).symm⟩
  | update _ source offset target ih =>
    obtain ⟨calls, hmade, rfl⟩ := ih
    exact ⟨_, hmade.append ⟨.update source offset target, rfl, rfl⟩, (recorded_append _ _).symm⟩
  | copy _ hlength ih =>
    obtain ⟨calls, hmade, rfl⟩ := ih
    exact ⟨_, hmade.append ⟨.copy hlength, rfl, hlength, rfl⟩, (recorded_append _ _).symm⟩
  | dispatch _ hcall ih =>
    obtain ⟨calls, hmade, rfl⟩ := ih
    obtain ⟨call, hmakes, rfl⟩ := dispatch_call hcall
    exact ⟨_, hmade.append hmakes, rfl⟩

/-- What a request finds is what its call found, up to the marks. -/
theorem take_same (calls : List (Call Programs)) (n : Nat) : Same ((recorded calls).take n) (before calls n) := by
  have hsame : (recorded calls).map Recorded.bare = (calls.map Call.op).map Recorded.bare := recorded_same calls
  unfold Same before
  rw [List.map_take, hsame, List.map_take, List.map_take]

theorem length_answeredOperands (hmade : MadeBy requests calls) (i : Nat) :
    (answeredOperands requests (recorded calls) i).length = (chainedSites calls i).length := by
  obtain ⟨hlength, hmade⟩ := hmade
  unfold answeredOperands chainedSites
  rw [List.length_flatMap, List.length_flatMap]
  congr 1
  refine List.ext_getElem? fun n => ?_
  rw [List.getElem?_map, List.getElem?_map, List.getElem?_zipIdx, List.getElem?_zipIdx]
  cases hrequest : requests[n]? with
  | none =>
    have hcall : calls[n]? = none := by
      rw [List.getElem?_eq_none_iff] at hrequest ⊢
      omega
    rw [hcall]
    rfl
  | some request =>
    have hn := (List.getElem?_eq_some_iff.mp hrequest).1
    obtain ⟨call, hcall⟩ : ∃ call, calls[n]? = some call :=
      ⟨_, List.getElem?_eq_getElem (hlength ▸ hn)⟩
    have hmakes := hmade n request call hrequest hcall
    rw [hcall]
    simp only [Option.map_some, Nat.zero_add, List.length_map]
    rw [length_sitesOf, hmakes.reads, countP_operands]
    simp only [(take_same calls n).operandChainedTo]
    exact congrArg some
      (length_filter_zipIdx (fun operand => operand.chainedTo (before calls n) = some i) request.operands)

/-- **The bookkeeping of a command buffer is exact.** However it was recorded, each of its operations is its
request's, every dispatch publishes a cube of exactly the bytes it compacts, and its counted readers are
exactly the operands of all requests that were answered with that cube. -/
theorem issued_exact (h : Issued requests ops) : ops.length = requests.length ∧
    ∀ (i : Nat) (request : Request) (op : Recorded Programs), requests[i]? = some request →
      ops[i]? = some op →
      request.Records (ops.take i) op ∧ ∀ record, op = .dispatch record →
        record.chainedReaders = (answeredOperands requests ops i).length ∧
        ∀ cube, record.outputCube = some cube → recordedWriteExtent op =
          dmaRange cube.denseBuffer cube.denseOffset (cube.geometry.pixelCount * cube.geometry.bytesPerPixel) := by
  obtain ⟨calls, hmade, rfl⟩ := h.made
  have haccepted : ∀ call ∈ calls, Accepted call := by
    intro call hmem
    obtain ⟨n, hn⟩ := List.mem_iff_getElem?.mp hmem
    have hlt : n < requests.length := hmade.1 ▸ (List.getElem?_eq_some_iff.mp hn).1
    exact (hmade.2 n _ call (List.getElem?_eq_getElem hlt) hn).accepted
  refine ⟨by rw [length_recorded, hmade.1], fun i request op hrequest hop => ?_⟩
  obtain ⟨call, hcall, hbare⟩ := recorded_call hop
  have hmakes := hmade.2 i request call hrequest hcall
  refine ⟨?_, ?_⟩
  · rw [← Request.records_bare, hbare, Request.records_bare, (take_same calls i).records]
    exact hmakes.records
  · rintro record rfl
    refine ⟨?_, fun cube hcube => ?_⟩
    · rw [length_answeredOperands hmade]
      exact chainedReaders_eq haccepted hop
    · have hcallCube : call.op.cube = some cube := (cube_of_bare hbare).symm.trans hcube
      rw [extent_of_bare hbare]
      exact (hmakes.accepted.published hcallCube).2

/-- The pixel, and a sum that reads it twice in place. -/
def pixelRequests : List Request :=
  [.dispatch soloContext pixelAbs (some [0, 0, 1, 0]) [⟨some 4096, 0, 32⟩, ⟨some 8192, 0, 32⟩],
    .dispatch soloContext pixelSum (some [3, 0, 0, 0])
      [⟨some 8192, 0, 32⟩, ⟨some 8192, 0, 32⟩, ⟨some 16384, 0, 32⟩]]

def pixelRecording : Recording :=
  (dispatch soloContext pixelSum (some [3, 0, 0, 0])
    [⟨some 8192, 0, 32⟩, ⟨some 8192, 0, 32⟩, ⟨some 16384, 0, 32⟩] onePixel).2

theorem issued_exact_pixels : pixelRecording.length = pixelRequests.length ∧
    ∀ (i : Nat) (request : Request) (op : Recorded Programs), pixelRequests[i]? = some request →
      pixelRecording[i]? = some op →
      request.Records (pixelRecording.take i) op ∧ ∀ record, op = .dispatch record →
        record.chainedReaders = (answeredOperands pixelRequests pixelRecording i).length ∧
        ∀ cube, record.outputCube = some cube → recordedWriteExtent op =
          dmaRange cube.denseBuffer cube.denseOffset (cube.geometry.pixelCount * cube.geometry.bytesPerPixel) :=
  have hpixel : dispatch soloContext pixelAbs (some [0, 0, 1, 0]) [⟨some 4096, 0, 32⟩, ⟨some 8192, 0, 32⟩] [] =
      (.ok (), onePixel) := Prod.ext (by decide +kernel) rfl
  have hsum : (dispatch soloContext pixelSum (some [3, 0, 0, 0])
      [⟨some 8192, 0, 32⟩, ⟨some 8192, 0, 32⟩, ⟨some 16384, 0, 32⟩] onePixel).1 = .ok () := by decide +kernel
  issued_exact (.dispatch (.dispatch .empty hpixel) (Prod.ext hsum rfl))

end IreeRocket.Driver
