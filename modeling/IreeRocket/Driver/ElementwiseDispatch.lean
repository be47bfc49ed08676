import IreeRocket.Driver.DispatchRefusal
import IreeRocket.Driver.ElementwiseEmission

/-!
# Dispatching an element-wise operation

The resolver asks that no extent is zero and the cube that its storage has a 32-bit size; the builders write
the extents into 13-bit fields and, for a lookup table, encode the scales, outside any panic guard. So a call
that passes every check on the way (`Reaches`) stops the thread unless its extents and its scales fit
(`elementwise_dispatch_returns_iff`).
-/

namespace IreeRocket.Driver

open Conv Layout Hal Marking

/-! ### Panics of a computation -/

section Panics

variable {α β : Type}

/-- The thread stops. -/
def Panics (x : Except DispatchStop α) : Prop := ∃ message, x = .error (.panicked message)

theorem panics_bind {x : Except DispatchStop α} {f : α → Except DispatchStop β} :
    Panics (x >>= f) ↔ Panics x ∨ ∃ a, x = .ok a ∧ Panics (f a) := by
  unfold Panics
  cases x <;> simp [bind, Except.bind]

@[simp] theorem panics_ok (a : α) : Panics (.ok a) ↔ False := by
  simp [Panics]

section Steps

variable (ops : Recording) {f : α → DispatchScript β}

theorem panics_lift_bind {x : Except DispatchStop α} (h : ¬ Panics x) :
    Panics ((recording Programs).outcome ops (Script.lift x >>= f)) ↔
      ∃ a, x = .ok a ∧ Panics ((recording Programs).outcome ops (f a)) := by
  rw [Store.outcome_bind, Store.outcome_lift, panics_bind, or_iff_right h]

theorem panics_orRefuse {x : Except String α} :
    Panics ((recording Programs).outcome ops (orRefuse x >>= f)) ↔
      ∃ a, x = .ok a ∧ Panics ((recording Programs).outcome ops (f a)) := by
  unfold orRefuse
  rw [panics_lift_bind ops (by cases x <;> simp [Panics, Except.mapError])]
  simp only [mapError_ok]

theorem panics_ofStatus {x : Except Status α} :
    Panics ((recording Programs).outcome ops (ofStatus x >>= f)) ↔
      ∃ a, x = .ok a ∧ Panics ((recording Programs).outcome ops (f a)) := by
  unfold ofStatus
  rw [panics_lift_bind ops (by cases x <;> simp [Panics, Except.mapError])]
  simp only [mapError_ok]

theorem panics_require {cond : Prop} [Decidable cond] {f : Unit → DispatchScript β} :
    Panics ((recording Programs).outcome ops (require cond >>= f)) ↔
      cond ∧ Panics ((recording Programs).outcome ops (f ())) := by
  unfold require
  rw [panics_lift_bind ops (by unfold Panics unlessErr; split_ifs <;> simp)]
  simp only [unlessErr_ok]
  constructor
  · rintro ⟨_, h⟩
    exact h
  · intro h
    exact ⟨(), h⟩

theorem panics_ref {refs : List Binding} {k : Nat} (hk : k < refs.length)
    {f : Binding → DispatchScript β} :
    Panics ((recording Programs).outcome ops (ref refs k >>= f)) ↔
      ∃ binding, refs[k]? = some binding ∧ Panics ((recording Programs).outcome ops (f binding)) := by
  unfold ref
  rw [List.getElem?_eq_getElem hk, panics_lift_bind ops (by simp [Panics, okOr])]
  simp only [okOr, Except.ok.injEq, Option.some.injEq]

/-- A call outside the guard panics unless it succeeds. -/
theorem panics_unguarded {x : Planner α} {g : α → β} :
    Panics ((recording Programs).outcome ops (unguarded x >>= fun a => pure (g a))) ↔
      ¬ ∃ a, x = .ok a := by
  unfold unguarded Panics
  rw [Store.outcome_bind, Store.outcome_lift]
  rcases x with (_ | _) | a <;> simp [Except.mapError, bind, Except.bind]

end Steps

end Panics

/-! ### Operands -/

section Operands

variable (ctx : Context) (ops : Recording) (binding : Binding) (cube : CubeGeometry) (declared : Bool)

/-- An operand that is a producer's cube, or else long enough to be packed. -/
def Available : Prop :=
  (∃ producer, answer ops (.chain binding cube declared) = .ok (some producer)) ∨
    (answer ops (.chain binding cube declared) = .ok none ∧ Fits (denseSize cube) binding)

variable {ops binding cube declared}

theorem not_panics_chain : ¬ Panics (answer ops (.chain binding cube declared)) := by
  rintro ⟨message, h⟩
  unfold answer at h
  dsimp only at h
  split at h
  · cases h
  · cases h

theorem elementwiseOperand_ok (slot : Slot) :
    (∃ addr, (recording Programs).outcome ops (elementwiseOperand ctx binding cube declared slot) =
      .ok addr) ↔ Available ops binding cube declared := by
  unfold elementwiseOperand Available
  simp only [Store.outcome_bind, outcome_featureInput, if_true]
  cases answer ops (.chain binding cube declared) with
  | error stop => simp [bind, Except.bind]
  | ok chained =>
    cases chained with
    | some producer => simp [bind, Except.bind]
    | none =>
      simp only [bind_ok, exists_eq_left', require, Except.ok.injEq]
      simp only [Store.outcome_bind, Store.outcome_lift, bind_ok, unlessErr_ok]
      simp

theorem not_panics_operand (slot : Slot) :
    ¬ Panics ((recording Programs).outcome ops (elementwiseOperand ctx binding cube declared slot)) := by
  unfold elementwiseOperand
  simp only [Store.outcome_bind, outcome_featureInput, if_true]
  rw [panics_bind]
  rintro (hchain | ⟨chained, hchain, hrest⟩)
  · exact not_panics_chain hchain
  · cases chained with
    | some producer => simp at hrest
    | none =>
      obtain ⟨-, hpanics⟩ := (panics_require ops).mp hrest
      exact (panics_ok _).mp hpanics

/-- What follows an operand runs exactly when the operand is available. -/
theorem panics_operand {β : Type} {slot : Slot} {f : Nat → DispatchScript β} :
    Panics ((recording Programs).outcome ops (elementwiseOperand ctx binding cube declared slot >>= f)) ↔
      ∃ addr, (recording Programs).outcome ops (elementwiseOperand ctx binding cube declared slot) =
        .ok addr ∧ Panics ((recording Programs).outcome ops (f addr)) := by
  rw [Store.outcome_bind, panics_bind, or_iff_right (not_panics_operand ctx slot)]

end Operands

/-! ### What a call passes on its way to a builder -/

section Arms

variable {ctx : Context} {ops : Recording} {constants : Bytes} {refs : List Binding}
variable {operands : Nat} {cube : CubeGeometry}

/-- A stored cube has an extent in every direction, and a surface of at most 2^28 atoms. -/
theorem elementwiseCube_placed {geometry : ElementwiseGeometry} {elementBytes : Nat}
    (h : elementwiseCube geometry.width geometry.height geometry.channels elementBytes = .ok cube) :
    geometry.Placed := by
  unfold elementwiseCube at h
  simp only [bind_ok, orInvalid, mapError_ok, unlessErr_ok, pure_ok, exists_const] at h
  obtain ⟨cube, hgeometry, bytes, hbytes, hsmall, rfl⟩ := h
  obtain ⟨-, ⟨hwidth, hheight, hchannels⟩, -, hsurface, -⟩ := cubeGeometry_ok hgeometry
  obtain ⟨-, -, hpos, hle, -⟩ := cubeGeometry_wellFormed hgeometry
  have hstored : bytes = outputArea geometry * (cube.packedSurfaces * 16) := by
    have hproduct := checkedProduct_some (someOr_ok.mp hbytes)
    simpa [hsurface, CubeKind.isPpu, outputArea, featureAtomBytes] using hproduct
  have hsurfaces : 0 < cube.packedSurfaces := by
    unfold CubeGeometry.packedSurfaces featureAtomBytes
    rw [Nat.ceilDiv_eq_add_pred_div]
    omega
  have hatoms : outputArea geometry * 16 ≤ bytes := by
    rw [hstored]
    exact Nat.mul_le_mul_left _ (by omega)
  exact ⟨⟨by omega, by omega, by omega⟩, by omega⟩

/-- The bindings of an element-wise call: its operands, then an output that holds the cube densely. -/
def Supplied (ops : Recording) (refs : List Binding) (operands : Nat) (layout : DispatchLayout)
    (cube : CubeGeometry) : Prop :=
  (∀ k < operands, ∃ binding, refs[k]? = some binding ∧ Available ops binding cube (layout.inputPacked k)) ∧
    ∃ binding, refs[operands]? = some binding ∧ Fits (denseSize cube) binding

/-- A call that every check lets pass, with the extents it resolves to. -/
structure Reaches (ops : Recording) (template : ElementwiseTemplate) (elementBytes operands : Nat)
    (constants : Bytes) (refs : List Binding) (geometry : ElementwiseGeometry) : Prop where
  resolves : template.resolveGeometry constants = .ok geometry
  supplied : ∃ cube,
    elementwiseCube geometry.width geometry.height geometry.channels elementBytes = .ok cube ∧
      Supplied ops refs operands
        (trailingLayout template.runtimeDenseReaders template.runtimeLayout constants) cube

theorem Supplied.length {layout : DispatchLayout} (h : Supplied ops refs operands layout cube) :
    operands + 1 ≤ refs.length := by
  obtain ⟨-, binding, hbinding, -⟩ := h
  exact (List.getElem?_eq_some_iff.mp hbinding).1

variable {layout : DispatchLayout} {record : List RegCmd → Binding → DispatchRecord Programs}

/-- The body of an operation on one tensor, whatever its builder. -/
theorem panics_one_operand {build : Nat → Planner (List RegCmd)} {emittable : Prop}
    (hbuild : ∀ inputAddr, (∃ program, build inputAddr = .ok program) ↔ emittable) :
    Panics ((recording Programs).outcome ops (do
      require (2 ≤ refs.length)
      let inputAddr ← elementwiseOperand ctx (← ref refs 0) cube (layout.inputPacked 0) .input
      let output ← ref refs 1
      require (Fits (denseSize cube) output)
      let commands ← unguarded (build inputAddr)
      return record commands output)) ↔ Supplied ops refs 1 layout cube ∧ ¬ emittable := by
  rw [panics_require]
  constructor
  · rintro ⟨hlength, hpanics⟩
    simp only [panics_ref ops (show 0 < refs.length by omega), panics_operand,
      panics_ref ops (show 1 < refs.length by omega), panics_require, panics_unguarded] at hpanics
    obtain ⟨input, hinput, addr, haddr, output, houtput, hfits, hpanics⟩ := hpanics
    have havailable := (elementwiseOperand_ok ctx _).mp ⟨addr, haddr⟩
    refine ⟨⟨fun k hk => ?_, output, houtput, hfits⟩, (hbuild addr).not.mp hpanics⟩
    obtain rfl : k = 0 := by omega
    exact ⟨input, hinput, havailable⟩
  · rintro ⟨hsupplied, hpanics⟩
    have hlength := hsupplied.length
    obtain ⟨hoperands, output, houtput, hfits⟩ := hsupplied
    obtain ⟨input, hinput, havailable⟩ := hoperands 0 (by decide)
    obtain ⟨addr, haddr⟩ := (elementwiseOperand_ok ctx _).mpr havailable
    simp only [panics_ref ops (show 0 < refs.length by omega), panics_operand,
      panics_ref ops (show 1 < refs.length by omega), panics_require, panics_unguarded]
    exact ⟨hlength, input, hinput, addr, haddr, output, houtput, hfits, (hbuild addr).not.mpr hpanics⟩

/-- The body of an operation on two tensors. -/
theorem panics_two_operands {build : Nat → Nat → Planner (List RegCmd)} {emittable : Prop}
    (hbuild : ∀ inputAddr wAddr, (∃ program, build inputAddr wAddr = .ok program) ↔ emittable) :
    Panics ((recording Programs).outcome ops (do
      require (3 ≤ refs.length)
      let inputAddr ← elementwiseOperand ctx (← ref refs 0) cube (layout.inputPacked 0) .input
      let wAddr ← elementwiseOperand ctx (← ref refs 1) cube (layout.inputPacked 1) .operand
      let output ← ref refs 2
      require (Fits (denseSize cube) output)
      let commands ← unguarded (build inputAddr wAddr)
      return record commands output)) ↔ Supplied ops refs 2 layout cube ∧ ¬ emittable := by
  rw [panics_require]
  constructor
  · rintro ⟨hlength, hpanics⟩
    simp only [panics_ref ops (show 0 < refs.length by omega), panics_operand,
      panics_ref ops (show 1 < refs.length by omega), panics_ref ops (show 2 < refs.length by omega),
      panics_require, panics_unguarded] at hpanics
    obtain ⟨input, hinput, addr, haddr, second, hsecond, wAddr, hwAddr, output, houtput, hfits, hpanics⟩ :=
      hpanics
    have hfirst := (elementwiseOperand_ok ctx _).mp ⟨addr, haddr⟩
    have hother := (elementwiseOperand_ok ctx _).mp ⟨wAddr, hwAddr⟩
    refine ⟨⟨fun k hk => ?_, output, houtput, hfits⟩, (hbuild addr wAddr).not.mp hpanics⟩
    obtain rfl | rfl : k = 0 ∨ k = 1 := by omega
    · exact ⟨input, hinput, hfirst⟩
    · exact ⟨second, hsecond, hother⟩
  · rintro ⟨hsupplied, hpanics⟩
    have hlength := hsupplied.length
    obtain ⟨hoperands, output, houtput, hfits⟩ := hsupplied
    obtain ⟨input, hinput, hfirst⟩ := hoperands 0 (by decide)
    obtain ⟨second, hsecond, hother⟩ := hoperands 1 (by decide)
    obtain ⟨addr, haddr⟩ := (elementwiseOperand_ok ctx .input).mpr hfirst
    obtain ⟨wAddr, hwAddr⟩ := (elementwiseOperand_ok ctx .operand).mpr hother
    simp only [panics_ref ops (show 0 < refs.length by omega), panics_operand,
      panics_ref ops (show 1 < refs.length by omega), panics_ref ops (show 2 < refs.length by omega),
      panics_require, panics_unguarded]
    exact ⟨hlength, input, hinput, addr, haddr, second, hsecond, wAddr, hwAddr, output, houtput, hfits,
      (hbuild addr wAddr).not.mpr hpanics⟩

/-- An arm resolves its extents, takes their cube and goes on. -/
theorem panics_resolved {σ α : Type} {template : ElementwiseTemplate} {elementBytes : Nat}
    (shapeOf : ElementwiseGeometry → σ) {geometryOf : σ → ElementwiseGeometry}
    (hshape : ∀ geometry, geometryOf (shapeOf geometry) = geometry)
    {body : σ → CubeGeometry → DispatchScript α} {emittable : ElementwiseGeometry → Prop}
    (hbody : ∀ geometry cube, geometry.Placed →
      (Panics ((recording Programs).outcome ops (body (shapeOf geometry) cube)) ↔
        Supplied ops refs operands
          (trailingLayout template.runtimeDenseReaders template.runtimeLayout constants) cube ∧
          ¬ emittable geometry)) :
    Panics ((recording Programs).outcome ops (do
      let shape ← orRefuse (do return shapeOf (← template.resolveGeometry constants))
      let cube ← ofStatus (elementwiseCube (geometryOf shape).width (geometryOf shape).height
        (geometryOf shape).channels elementBytes)
      body shape cube)) ↔
      ∃ geometry, Reaches ops template elementBytes operands constants refs geometry ∧
        ¬ emittable geometry := by
  simp only [panics_orRefuse, panics_ofStatus, bind_ok, pure_ok]
  constructor
  · rintro ⟨_, ⟨geometry, hresolves, rfl⟩, cube, hcube, hpanics⟩
    rw [hshape] at hcube
    obtain ⟨hsupplied, hrest⟩ := (hbody geometry cube (elementwiseCube_placed hcube)).mp hpanics
    exact ⟨geometry, ⟨hresolves, cube, hcube, hsupplied⟩, hrest⟩
  · rintro ⟨geometry, ⟨hresolves, cube, hcube, hsupplied⟩, hrest⟩
    refine ⟨_, ⟨geometry, hresolves, rfl⟩, cube, by rw [hshape]; exact hcube, ?_⟩
    exact (hbody geometry cube (elementwiseCube_placed hcube)).mpr ⟨hsupplied, hrest⟩

/-! ### The arms -/

theorem unaryArm_panics {executable : ElementwiseUnaryExecutable}
    (hoperand : executable.operand ≠ 0 → executable.algo = .add) :
    Panics ((recording Programs).outcome ops (unaryArm ctx constants refs executable)) ↔
      ∃ geometry, Reaches ops executable.toElementwiseTemplate 2 1 constants refs geometry ∧
        ¬ geometry.Encodable := by
  refine panics_resolved (fun geometry => EwUnaryShape.mk geometry executable.algo executable.operand)
    (fun _ => rfl) fun geometry cube hplaced => ?_
  exact panics_one_operand fun _ => buildUnaryRegcmd_isOk hplaced hoperand

theorem binaryArm_panics {executable : ElementwiseBinaryExecutable} :
    Panics ((recording Programs).outcome ops (binaryArm ctx constants refs executable)) ↔
      ∃ geometry, Reaches ops executable.toElementwiseTemplate 2 2 constants refs geometry ∧
        ¬ geometry.Encodable := by
  refine panics_resolved (fun geometry => EwAddShape.mk geometry executable.op)
    (fun _ => rfl) fun geometry cube hplaced => ?_
  exact panics_two_operands fun _ _ => buildAddRegcmdWithRelu_isOk false hplaced

/-- A supported zero point survives its bias. -/
theorem realZeroPoint_biased {zeroPoint : Int} (h : zeroPoint ∈ supportedLutZeroPoints) :
    lutBnAluSupportsZeroPoint (realZeroPoint (ElementwiseLutExecutable.biased zeroPoint)) := by
  revert zeroPoint
  unfold supportedLutZeroPoints
  decide

/-- The two scales of a lookup table encode. -/
def ElementwiseLutExecutable.ScalesEncode (ctx : Context) (executable : ElementwiseLutExecutable) : Prop :=
  LutEncodes
    (lutBnMul ctx.floats (.ofBits executable.inputScale) (executable.function.table ctx.banks).bnScaleK)
    (lutOutCvt ctx.floats (.ofBits executable.outputScale))

theorem lutArm_panics {executable : ElementwiseLutExecutable}
    (hzero : executable.inputZeroPoint ∈ supportedLutZeroPoints) :
    Panics ((recording Programs).outcome ops (lutArm ctx constants refs executable)) ↔
      ∃ geometry, Reaches ops executable.toElementwiseTemplate 1 1 constants refs geometry ∧
        ¬ (geometry.Encodable ∧ executable.ScalesEncode ctx) := by
  refine panics_resolved
    (fun geometry => LutShape.mk geometry (ElementwiseLutExecutable.biased executable.inputZeroPoint)
      (ElementwiseLutExecutable.biased executable.outputZeroPoint) executable.inputScale
      executable.outputScale)
    (fun _ => rfl) fun geometry cube hplaced => ?_
  exact panics_one_operand fun _ =>
    buildLutRegcmd_isOk ctx.banks executable.function hplaced (realZeroPoint_biased hzero)

end Arms

/-! ### Every element-wise dispatch -/

/-- The template of an element-wise executable, the bytes of its elements and its number of operands. -/
def UkernelShape.elementwise : UkernelShape → Option (ElementwiseTemplate × Nat × Nat)
  | .elementwiseUnary executable => some (executable.toElementwiseTemplate, 2, 1)
  | .elementwiseBinary executable => some (executable.toElementwiseTemplate, 2, 2)
  | .elementwiseLut executable => some (executable.toElementwiseTemplate, 1, 1)
  | _ => none

/-- The scales of an executable encode, where it has any. -/
def UkernelShape.ScalesEncode (ctx : Context) : UkernelShape → Prop
  | .elementwiseLut executable => executable.ScalesEncode ctx
  | _ => True

/-- What decoding has checked that the builders ask for again. -/
def UkernelShape.Checked : UkernelShape → Prop
  | .elementwiseUnary executable => executable.operand ≠ 0 → executable.algo = .add
  | .elementwiseLut executable => executable.inputZeroPoint ∈ supportedLutZeroPoints
  | _ => True

theorem decodeFlatbufferShape_checked {table : Schema.KernelDef} {ukernel : UkernelShape}
    (h : decodeFlatbufferShape table = .ok ukernel) : ukernel.Checked := by
  cases table <;> simp only [decodeFlatbufferShape, bind_ok, pure_ok, orUnit, mapError_ok] at h
  case elementwiseUnary table =>
    obtain ⟨executable, -, _, hvalid, rfl⟩ := h
    unfold ElementwiseUnaryExecutable.validateTemplate at hvalid
    simp only [bind_ok, unlessErr_ok] at hvalid
    obtain ⟨_, -, hoperand⟩ := hvalid
    exact hoperand
  case elementwiseLut table =>
    obtain ⟨executable, -, _, hvalid, rfl⟩ := h
    unfold ElementwiseLutExecutable.validateTemplate at hvalid
    simp only [bind_ok, unlessErr_ok, exists_const] at hvalid
    obtain ⟨_, -, hzero, -⟩ := hvalid
    exact hzero
  all_goals
    obtain ⟨_, -, _, -, rfl⟩ := h
    trivial

section Dispatch

variable {ctx : Context} {ukernel : UkernelShape} {constants : Option Bytes} {refs : List Binding}
variable {ops : Recording} {template : ElementwiseTemplate} {elementBytes operands : Nat}

theorem elementwise_panics (hchecked : ukernel.Checked)
    (helementwise : ukernel.elementwise = some (template, elementBytes, operands)) :
    Panics (verdict ctx ukernel constants refs ops) ↔
      ∃ bytes, constants = some bytes ∧ refs.all (·.buffer.isSome) = true ∧
        ∃ geometry, Reaches ops template elementBytes operands bytes refs geometry ∧
          ¬ (geometry.Encodable ∧ ukernel.ScalesEncode ctx) := by
  have hconstants : ¬ Panics (okOr constants (DispatchStop.refused .invalidArgument)) := by
    cases constants <;> simp [Panics, okOr]
  have hdirect : ¬ Panics (unlessErr (refs.all (·.buffer.isSome) = true) DispatchStop.unimplemented) := by
    unfold Panics unlessErr
    split_ifs <;> simp
  unfold verdict dispatchImpl
  rw [panics_lift_bind ops hconstants]
  refine exists_congr fun bytes => and_congr okOr_ok ?_
  rw [panics_lift_bind ops hdirect]
  simp only [unlessErr_ok, exists_const]
  refine and_congr_right fun _ => ?_
  cases ukernel with
  | conv2d executable => cases helementwise
  | matmul executable scales => cases helementwise
  | pooling executable => cases helementwise
  | elementwiseUnary executable =>
    cases helementwise
    simp only [unaryArm_panics hchecked, UkernelShape.ScalesEncode, and_true]
  | elementwiseBinary executable =>
    cases helementwise
    simp only [binaryArm_panics, UkernelShape.ScalesEncode, and_true]
  | elementwiseLut executable =>
    cases helementwise
    exact lutArm_panics hchecked

/-- **A dispatch of a decoded element-wise executable returns a status exactly when, wherever every check
lets it pass, the extents it resolves to are at most 8192 and the scales of a lookup table encode.** -/
theorem elementwise_dispatch_returns_iff {table : Schema.KernelDef}
    (hdecode : decodeFlatbufferShape table = .ok ukernel)
    (helementwise : ukernel.elementwise = some (template, elementBytes, operands)) :
    (∀ message, (dispatch ctx ukernel constants refs ops).1 ≠ .error (.panicked message)) ↔
      ∀ bytes geometry, constants = some bytes → refs.all (·.buffer.isSome) = true →
        Reaches ops template elementBytes operands bytes refs geometry →
          geometry.Encodable ∧ ukernel.ScalesEncode ctx := by
  have hpanics : Panics (verdict ctx ukernel constants refs ops) ↔
      ∃ bytes, constants = some bytes ∧ refs.all (·.buffer.isSome) = true ∧
        ∃ geometry, Reaches ops template elementBytes operands bytes refs geometry ∧
          ¬ (geometry.Encodable ∧ ukernel.ScalesEncode ctx) :=
    elementwise_panics (decodeFlatbufferShape_checked hdecode) helementwise
  constructor
  · intro hreturns bytes geometry hconstants hdirect hreaches
    by_contra hfits
    obtain ⟨message, hstop⟩ := hpanics.mpr ⟨bytes, hconstants, hdirect, geometry, hreaches, hfits⟩
    exact hreturns message (dispatch_error_iff.mpr hstop)
  · intro hfits message hstop
    obtain ⟨bytes, hconstants, hdirect, geometry, hreaches, hunfit⟩ :=
      hpanics.mp ⟨message, dispatch_error_iff.mp hstop⟩
    exact hunfit (hfits bytes geometry hconstants hdirect hreaches)

/-- One pixel is read from one binding and written to another. -/
theorem elementwise_dispatch_returns_pixel :
    (∀ message, (dispatch soloContext pixelAbs (some [0, 0, 0, 0])
        [⟨some 4096, 0, 32⟩, ⟨some 8192, 0, 32⟩] []).1 ≠ .error (.panicked message)) ↔
      ∀ bytes geometry, some [0, 0, 0, 0] = some bytes →
        [(⟨some 4096, 0, 32⟩ : Binding), ⟨some 8192, 0, 32⟩].all (·.buffer.isSome) = true →
          Reaches [] pixelTemplate 2 1 bytes [⟨some 4096, 0, 32⟩, ⟨some 8192, 0, 32⟩] geometry →
            geometry.Encodable ∧ pixelAbs.ScalesEncode soloContext :=
  have hdecode : decodeFlatbufferShape (.elementwiseUnary {
      width := 1, height := 1, channels := 16, op := .abs, operand := 0, runtimeDimensions := []
      runtimeDenseReaders := false, runtimeLayout := true }) = .ok pixelAbs := by
    decide +kernel
  elementwise_dispatch_returns_iff hdecode rfl

/-- A row of 8193 pixels is decoded, resolved and given its bindings, and stops the thread in a builder. -/
theorem wide_row_panics : ¬ ∀ (ctx : Context) (table : Schema.KernelDef) (ukernel : UkernelShape)
    (template : ElementwiseTemplate) (elementBytes operands : Nat) (constants : Option Bytes)
    (refs : List Binding) (ops : Recording) (message : String),
      decodeFlatbufferShape table = .ok ukernel →
        ukernel.elementwise = some (template, elementBytes, operands) →
          (dispatch ctx ukernel constants refs ops).1 ≠ .error (.panicked message) := by
  intro h
  refine h soloContext
    (.elementwiseUnary {
      width := 0, height := 1, channels := 16, op := .abs, operand := 0, runtimeDimensions := [.width]
      runtimeDenseReaders := false, runtimeLayout := false })
    (.elementwiseUnary ⟨⟨⟨0, 1, 16⟩, [.width], false, false⟩, .abs, 0⟩) ⟨⟨0, 1, 16⟩, [.width], false, false⟩
    2 1 (some [1, 0x20, 0, 0]) [⟨some 1048576, 0, 32 * 8193⟩, ⟨some 2097152, 0, 32 * 8193⟩] []
    "Value exceeds designated bit width!" ?_ rfl ?_
  · decide +kernel
  · decide +kernel

end Dispatch

end IreeRocket.Driver
