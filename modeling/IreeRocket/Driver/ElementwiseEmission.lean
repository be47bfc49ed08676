import IreeRocket.Driver.ElementwiseProgram

/-!
# Which element-wise operations can be emitted

The cube registers hold extents up to 8192, and nothing on the way to a builder asks for that. A lookup
table also needs its scales to encode. Given nonzero extents and a surface that fits its stride registers,
which a storable cube has, a task is written exactly under these conditions (`taskRegisters_fit_iff`).
-/

namespace IreeRocket.Driver

open Conv Hal

/-- The extents the cube registers hold. -/
structure ElementwiseGeometry.Encodable (geometry : ElementwiseGeometry) : Prop where
  width : geometry.width ≤ 2 ^ 13
  height : geometry.height ≤ 2 ^ 13
  channels : geometry.channels ≤ 2 ^ 13

instance (geometry : ElementwiseGeometry) : Decidable geometry.Encodable :=
  decidable_of_iff (geometry.width ≤ 2 ^ 13 ∧ geometry.height ≤ 2 ^ 13 ∧ geometry.channels ≤ 2 ^ 13)
    ⟨fun ⟨hw, hh, hc⟩ => ⟨hw, hh, hc⟩, fun ⟨hw, hh, hc⟩ => ⟨hw, hh, hc⟩⟩

/-- What a storable cube of the geometry has: an extent in every direction, and a surface whose atoms fit
the stride registers. -/
structure ElementwiseGeometry.Placed (geometry : ElementwiseGeometry) : Prop where
  nonzero : geometry.Nonzero
  area_lt : outputArea geometry < 2 ^ 28

variable {geometry : ElementwiseGeometry}

/-! ### One task -/

theorem taskChannels_le_iff : taskChannels geometry ≤ 2 ^ 13 ↔ geometry.channels ≤ 2 ^ 13 := by
  unfold taskChannels nextMultipleOf
  rw [Nat.ceilDiv_eq_add_pred_div]
  omega

theorem allFit_pushKick (commands : List RegCmd) : AllFit (pushKick commands) ↔ AllFit commands := by
  have hkick : AllFit [zero Reg.pcSingleTaskPlaceholder, zero .pcRegisterAmounts, zero .pcRequiredMarker,
      ⟨.pcOperationEnable, [⟨32, kickDpu⟩]⟩] := by decide
  unfold pushKick
  dsimp only
  split_ifs
  · rw [allFit_append, and_iff_left hkick]
  · rw [allFit_append, allFit_append, and_iff_left hkick, and_iff_left (by decide)]

theorem opValues_fit (operand : Nat) : AllFit (opValues operand) := by
  simp [opValues, Ew.ewOpValue, AllFit]

theorem outputRegisters_fit_iff (hplaced : geometry.Placed) (dataFormat : RegCmd) (outputAddr : Nat) :
    AllFit (outputRegisters geometry dataFormat outputAddr) ↔ dataFormat.Fits ∧ geometry.Encodable := by
  have hchannels : taskChannels geometry ≤ 2 ^ 13 ↔ geometry.channels ≤ 2 ^ 13 := taskChannels_le_iff
  obtain ⟨⟨hw, hh, hc⟩, harea⟩ := hplaced
  constructor
  · intro h
    simp [outputRegisters, sPointer, Ew.featureModeCfg, dpuDstBaseAddr, dpuDstSurfStride, cubeExtents,
      dpuBsCfg, dpuBsOwCfg] at h
    exact ⟨h.1, by omega, by omega, by omega⟩
  · rintro ⟨hformat, hwidth, hheight, hdepth⟩
    simp [outputRegisters, sPointer, Ew.featureModeCfg, dpuDstBaseAddr, dpuDstSurfStride, cubeExtents,
      dpuBsCfg, dpuBsOwCfg, hformat]
    omega

theorem inputRegisters_fit (hencodable : geometry.Encodable) (hplaced : geometry.Placed) {inputAddr : Nat}
    {erdma : List RegCmd} {featureMode : RegCmd} (herdma : AllFit erdma) (hmode : featureMode.Fits) :
    AllFit (inputRegisters geometry inputAddr erdma featureMode) := by
  have hchannels := taskChannels_le_iff.mpr hencodable.channels
  obtain ⟨hwidth, hheight, -⟩ := hencodable
  obtain ⟨⟨hw, hh, -⟩, -⟩ := hplaced
  simp [inputRegisters, cubeExtents, Ew.rdmaSrcBaseAddr, dpuRdmaWeight, herdma, hmode]
  omega

section Task

variable {dataFormat ewCfg featureMode : RegCmd} {bn outCvt lut erdma : List RegCmd}
variable {outputAddr operand inputAddr : Nat}

/-- **A task fits its registers exactly when its extents do and what its builder adds does.** -/
theorem taskRegisters_fit_iff (hplaced : geometry.Placed) (hew : ewCfg.Fits) (herdma : AllFit erdma)
    (hmode : featureMode.Fits) :
    AllFit (taskRegisters geometry dataFormat outputAddr bn ewCfg outCvt operand lut inputAddr erdma
      featureMode) ↔
      geometry.Encodable ∧ dataFormat.Fits ∧ AllFit bn ∧ AllFit outCvt ∧ AllFit lut := by
  have hstage : AllFit (ewRegisters ewCfg) := by
    simp [ewRegisters, dpuEwCvtScaleValue, hew]
  have hsurface : AllFit (surfaceRegisters geometry) := by
    simp [surfaceRegisters, dpuSurfaceAdd]
    exact hplaced.area_lt
  unfold taskRegisters
  rw [allFit_pushKick]
  simp only [allFit_append, outputRegisters_fit_iff hplaced, hstage, hsurface, opValues_fit, and_true]
  constructor
  · rintro ⟨⟨⟨⟨⟨hformat, hencodable⟩, hbn⟩, hcvt⟩, hlut⟩, -⟩
    exact ⟨hencodable, hformat, hbn, hcvt, hlut⟩
  · rintro ⟨hencodable, hformat, hbn, hcvt, hlut⟩
    exact ⟨⟨⟨⟨⟨hformat, hencodable⟩, hbn⟩, hcvt⟩, hlut⟩, inputRegisters_fit hencodable hplaced herdma hmode⟩

end Task

theorem written_isOk (commands : List RegCmd) : (∃ program, written commands = .ok program) ↔ AllFit commands := by
  unfold written
  simp only [bind_ok, assertThat_ok, pure_ok, exists_const]
  constructor
  · rintro ⟨_, hfit, -⟩
    exact hfit
  · intro hfit
    exact ⟨commands, hfit, rfl⟩

/-! ### The builders -/

theorem bnBypass_fit : AllFit bnBypass := by decide

theorem fp16OutCvt_fit : AllFit fp16OutCvt := by decide

theorem lutUnused_fit : AllFit lutUnused := by decide

theorem erdmaDisabled_fit : AllFit erdmaDisabled := by decide

/-- A unary task is emitted exactly when its extents fit. -/
theorem buildUnaryRegcmd_isOk {shape : EwUnaryShape} {bufs : EwUnaryBuffers}
    (hplaced : shape.geometry.Placed) (hoperand : shape.operand ≠ 0 → shape.algo = .add) :
    (∃ program, buildUnaryRegcmd shape bufs = .ok program) ↔ shape.geometry.Encodable := by
  have hadd : shape.operand = 0 ∨ shape.algo = .add := by
    by_cases hzero : shape.operand = 0
    · exact .inl hzero
    · exact .inr (hoperand hzero)
  have hew : (Ew.ewCfg 0 1 2 shape.algo.opcode 1 1 0 0 0).Fits := by
    cases shape.algo <;> decide
  unfold buildUnaryRegcmd
  simp only [bind_ok, assertThat_ok, exists_const, hplaced.nonzero, hadd, true_and]
  rw [written_isOk, taskRegisters_fit_iff hplaced hew erdmaDisabled_fit (by decide)]
  exact ⟨fun h => h.1, fun h => ⟨h, by decide, bnBypass_fit, fp16OutCvt_fit, lutUnused_fit⟩⟩

/-- A binary task is emitted exactly when its extents fit. -/
theorem buildAddRegcmdWithRelu_isOk {shape : EwAddShape} {bufs : EwAddBuffers} (relu : Bool)
    (hplaced : shape.geometry.Placed) :
    (∃ program, buildAddRegcmdWithRelu shape bufs relu = .ok program) ↔ shape.geometry.Encodable := by
  have hew : (Ew.ewCfg 0 1 2 shape.op.aluAlgo (flag !relu) 1 1 (flag shape.op.isMul)
      (flag shape.op.isMul)).Fits := by
    cases shape.op <;> cases relu <;> decide
  have herdma : AllFit [Ew.rdmaErdmaCfg 1 2, Ew.rdmaEwBaseAddr bufs.wAddr,
      Ew.rdmaEwSurfStride (max (outputArea shape.geometry) 12)] := by
    have harea := hplaced.area_lt
    simp [Ew.rdmaErdmaCfg, Ew.rdmaEwBaseAddr, Ew.rdmaEwSurfStride]
    omega
  unfold buildAddRegcmdWithRelu
  simp only [bind_ok, assertThat_ok, exists_const, hplaced.nonzero, true_and]
  rw [written_isOk, taskRegisters_fit_iff hplaced hew herdma (by decide)]
  exact ⟨fun h => h.1, fun h => ⟨h, by decide, bnBypass_fit, fp16OutCvt_fit, lutUnused_fit⟩⟩

/-- The two encodings of a lookup table fit the operands and the shifts of their registers. -/
structure LutEncodes (bnMul outCvt : Nat × Nat) : Prop where
  bnMul : bnMul.1 < 2 ^ 16 ∧ bnMul.2 < 2 ^ 6
  outCvt : outCvt.1 < 2 ^ 16 ∧ outCvt.2 < 2 ^ 12

instance (bnMul outCvt : Nat × Nat) : Decidable (LutEncodes bnMul outCvt) :=
  decidable_of_iff ((bnMul.1 < 2 ^ 16 ∧ bnMul.2 < 2 ^ 6) ∧ outCvt.1 < 2 ^ 16 ∧ outCvt.2 < 2 ^ 12)
    ⟨fun ⟨hmul, hcvt⟩ => ⟨hmul, hcvt⟩, fun ⟨hmul, hcvt⟩ => ⟨hmul, hcvt⟩⟩

theorem lutBank_fit {tableId : Nat} (htable : tableId < 2) (entries : List Nat) :
    AllFit (lutBank tableId entries) := by
  simp [lutBank, Ew.lutAccessCfg, Ew.lutAccessData, AllFit, htable]

/-- The fields a function's table fills. -/
theorem table_fits (banks : LutFunction → List Nat × List Nat) (function : LutFunction) :
    (function.table banks).ewOpBypass < 2 ∧ (function.table banks).leSlopeUflowScale < 2 ^ 16 ∧
      (function.table banks).leSlopeUflowShift < 2 ^ 5 := by
  cases function <;> simp [LutFunction.table]

theorem lutTablesAndConfig_fit (banks : LutFunction → List Nat × List Nat) (function : LutFunction) :
    AllFit (lutTablesAndConfig (function.table banks)) := by
  unfold lutTablesAndConfig
  rw [allFit_append, allFit_append]
  refine ⟨⟨lutBank_fit (by decide) _, lutBank_fit (by decide) _⟩, ?_⟩
  simp [Ew.lutCfg, Ew.lutInfo, Ew.lutEdge, Ew.lutLeSlopeScale, Ew.lutLeSlopeShift]
  exact (table_fits banks function).2

/-- A lookup-table task is emitted exactly when its extents fit and its scales encode. -/
theorem buildLutRegcmd_isOk {ops : FloatOps} {shape : LutShape} {bufs : LutBuffers}
    (banks : LutFunction → List Nat × List Nat) (function : LutFunction)
    (hplaced : shape.geometry.Placed)
    (hzero : lutBnAluSupportsZeroPoint (realZeroPoint shape.inputZeroPoint)) :
    (∃ program, buildLutRegcmd ops shape bufs (function.table banks) = .ok program) ↔
      shape.geometry.Encodable ∧
        LutEncodes (lutBnMul ops (.ofBits shape.inputScale) (function.table banks).bnScaleK)
          (lutOutCvt ops (.ofBits shape.outputScale)) := by
  have hew : (dpuEwCfg 1 1 0 (function.table banks).ewOpBypass 0).Fits := by
    simpa [dpuEwCfg] using (table_fits banks function).1
  unfold buildLutRegcmd
  simp only [bind_ok, assertThat_ok, exists_const, hplaced.nonzero, hzero, true_and]
  rw [written_isOk, taskRegisters_fit_iff hplaced hew erdmaDisabled_fit (by decide)]
  generalize lutBnMul ops (.ofBits shape.inputScale) (function.table banks).bnScaleK = bnMul
  generalize lutOutCvt ops (.ofBits shape.outputScale) = outCvt
  have htables := lutTablesAndConfig_fit banks function
  simp only [htables, and_true]
  refine and_congr_right fun _ => ?_
  constructor
  · rintro ⟨hformat, hbn, hcvt⟩
    simp [Ew.bnCfg, Ew.bnAluCfg, Ew.bnMulCfg] at hbn
    simp [dpuOutCvtOffset, dpuOutCvtScale, dpuOutCvtShift] at hcvt
    exact ⟨hbn, hcvt⟩
  · rintro ⟨⟨hoperand, hshift⟩, hscale, hcvtShift⟩
    refine ⟨?_, ?_, ?_⟩
    · simpa [Ew.lutDataFormat] using hshift
    · simp [Ew.bnCfg, Ew.bnAluCfg, Ew.bnMulCfg]
      exact ⟨hoperand, hshift⟩
    · simp [dpuOutCvtOffset, dpuOutCvtScale, dpuOutCvtShift]
      exact ⟨hscale, hcvtShift⟩

end IreeRocket.Driver
