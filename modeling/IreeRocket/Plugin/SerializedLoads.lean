import IreeRocket.Driver.Specialisation
import IreeRocket.Plugin.SerializeExecutable

/-!
# What is serialized loads

The backend and the driver check an executable in turn. Of what the backend writes, the driver's decoder
reads every name, and its template check passes (`…Written`). What remains for the driver to refuse is
`Admits`: a requantization it cannot encode, a padded pool whose fill is unknown, a lookup of infinite
scale, and static geometry, which it validates as a dispatch does.
-/

namespace IreeRocket.Backend

open Driver Conv Layout Weights
open ExecutableFormat hiding decodePrecision
open Schema hiding Activation Precision PoolingMethod EwBinaryOp

/-! ### Spellings -/

def conv2dSpelling : conv2dDimensions.Spelling RuntimeConv2dDimension where
  nameOf
    | .inputWidth => "input_width"
    | .inputHeight => "input_height"
    | .inputChannels => "input_channels"
    | .outputChannels => "output_channels"
    | .weightsWidth => "weights_width"
    | .weightsHeight => "weights_height"
  encode := encodeConv2DDimension
  named_iff name d := by
    constructor
    · intro h
      simp only [conv2dDimensions] at h
      split at h <;> cases h
      exacts [⟨.inputWidth, rfl, rfl⟩, ⟨.inputHeight, rfl, rfl⟩, ⟨.inputChannels, rfl, rfl⟩,
        ⟨.outputChannels, rfl, rfl⟩, ⟨.weightsWidth, rfl, rfl⟩, ⟨.weightsHeight, rfl, rfl⟩]
    · rintro ⟨r, rfl, rfl⟩
      cases r <;> rfl
  injective a b h := by cases a <;> cases b <;> first | rfl | cases h

def encodeConv2DQuantParam : RuntimeConv2dQuantParam → Conv2DQuantParam
  | .outputScale => .outputScale
  | .inputZeroPoint => .inputZeroPoint
  | .outputZeroPoint => .outputZeroPoint

def quantParamSpelling : conv2dQuantParams.Spelling RuntimeConv2dQuantParam where
  nameOf
    | .outputScale => "output_scale"
    | .inputZeroPoint => "input_zero_point"
    | .outputZeroPoint => "output_zero_point"
  encode := encodeConv2DQuantParam
  named_iff name d := by
    constructor
    · intro h
      simp only [conv2dQuantParams] at h
      split at h <;> cases h
      exacts [⟨.outputScale, rfl, rfl⟩, ⟨.inputZeroPoint, rfl, rfl⟩, ⟨.outputZeroPoint, rfl, rfl⟩]
    · rintro ⟨r, rfl, rfl⟩
      cases r <;> rfl
  injective a b h := by cases a <;> cases b <;> first | rfl | cases h

def matmulSpelling : matmulDimensions.Spelling RuntimeMatmulDimension where
  nameOf
    | .m => "m"
    | .k => "k"
    | .n => "n"
  encode := encodeMatmulDimension
  named_iff name d := by
    constructor
    · intro h
      simp only [matmulDimensions] at h
      split at h <;> cases h
      exacts [⟨.m, rfl, rfl⟩, ⟨.k, rfl, rfl⟩, ⟨.n, rfl, rfl⟩]
    · rintro ⟨r, rfl, rfl⟩
      cases r <;> rfl
  injective a b h := by cases a <;> cases b <;> first | rfl | cases h

def poolingSpelling : poolingDimensions.Spelling RuntimePoolingDimension where
  nameOf
    | .inputWidth => "input_width"
    | .inputHeight => "input_height"
    | .channels => "channels"
    | .kernelWidth => "kernel_width"
    | .kernelHeight => "kernel_height"
    | .strideX => "stride_x"
    | .strideY => "stride_y"
  encode := encodePoolingDimension
  named_iff name d := by
    constructor
    · intro h
      simp only [poolingDimensions] at h
      split at h <;> cases h
      exacts [⟨.inputWidth, rfl, rfl⟩, ⟨.inputHeight, rfl, rfl⟩, ⟨.channels, rfl, rfl⟩,
        ⟨.kernelWidth, rfl, rfl⟩, ⟨.kernelHeight, rfl, rfl⟩, ⟨.strideX, rfl, rfl⟩,
        ⟨.strideY, rfl, rfl⟩]
    · rintro ⟨r, rfl, rfl⟩
      cases r <;> rfl
  injective a b h := by cases a <;> cases b <;> first | rfl | cases h

def elementwiseSpelling : elementwiseDimensions.Spelling RuntimeElementwiseDimension where
  nameOf
    | .width => "width"
    | .height => "height"
    | .channels => "channels"
  encode := encodeElementwiseDimension
  named_iff name d := by
    constructor
    · intro h
      simp only [elementwiseDimensions] at h
      split at h <;> cases h
      exacts [⟨.width, rfl, rfl⟩, ⟨.height, rfl, rfl⟩, ⟨.channels, rfl, rfl⟩]
    · rintro ⟨r, rfl, rfl⟩
      cases r <;> rfl
  injective a b h := by cases a <;> cases b <;> first | rfl | cases h

/-! ### Names the schema knows -/

theorem named_ok {α : Type} {names : String → Option α} {unrecognized expected value : String} {a : α} :
    named names unrecognized expected value = .ok a ↔ names value = some a := okOr_ok

/-- The driver reads what a table of names gives. -/
theorem decodes_activation {name : String} {activation : Schema.Activation}
    (h : activationNamed name = some activation) (cmp : Nat) :
    ∃ a, decodeActivation activation cmp = .ok a := by
  unfold activationNamed at h
  split at h <;> cases h <;> exact ⟨_, rfl⟩

theorem decodes_epilogueActivation {name : String} {activation : Schema.Activation}
    (h : epilogueActivationNamed name = some activation) :
    ∃ a, decodeEpilogueActivation activation = .ok a := by
  unfold epilogueActivationNamed at h
  split at h <;> cases h <;> exact ⟨_, rfl⟩

theorem decodes_poolingMethod {name : String} {method : Schema.PoolingMethod}
    (h : poolingMethodNamed name = some method) : ∃ m, decodePoolingMethod method = .ok m := by
  unfold poolingMethodNamed at h
  split at h <;> cases h <;> exact ⟨_, rfl⟩

theorem decodes_poolingPrecision {name : String} {precision : Schema.Precision}
    (h : poolingPrecisionNamed name = some precision) :
    ∃ p, decodePoolingPrecision precision = .ok p := by
  unfold poolingPrecisionNamed at h
  split at h <;> cases h <;> exact ⟨_, rfl⟩

theorem decodes_ewUnaryOp {name : String} {op : EwUnaryOp} (h : ewUnaryOpNamed name = some op) :
    ∃ algo, decodeEwUnaryOp op = .ok algo ∧ (op = .addScalar → algo = .add) := by
  unfold ewUnaryOpNamed at h
  split at h <;> cases h <;> refine ⟨_, rfl, fun hadd => ?_⟩ <;> first | rfl | cases hadd

theorem decodes_ewBinaryOp {name : String} {op : Schema.EwBinaryOp}
    (h : ewBinaryOpNamed name = some op) : ∃ o, decodeEwBinaryOp op = .ok o := by
  unfold ewBinaryOpNamed at h
  split at h <;> cases h <;> exact ⟨_, rfl⟩

theorem decodes_lutFn {name : String} {fn : LutFn} (h : lutFnNamed name = some fn) :
    ∃ function, decodeLutFn fn = .ok function := by
  unfold lutFnNamed at h
  split at h <;> cases h <;> exact ⟨_, rfl⟩

/-! ### Templates -/

/-- The template rule: a dimension is zero exactly where a dispatch supplies it. -/
structure IsTemplate {R : Type} (dims : List R) (value : R → Nat) : Prop where
  nodup : dims.Nodup
  zero : ∀ d, d ∈ dims ↔ value d = 0

/-- A config that lists these dimensions, and states these values. -/
structure Spelled {D R : Type} {list : RuntimeList D} (spelling : list.Spelling R)
    (config : DictionaryAttr) (dims : List R) (value : R → Nat) : Prop where
  listed : list.entries config = .ok (dims.map fun d => some (spelling.nameOf d))
  stated : ∀ d, config.getU32 (spelling.nameOf d) = .ok (value d)

section Template

variable {R : Type} [DecidableEq R] {dims all : List R} {value get : R → Nat}

/-- The driver asks the same of a template. -/
theorem IsTemplate.checks (h : IsTemplate dims value) (hget : ∀ d, get d = value d)
    (unique zero nonzero : String) : checkDimensions all get unique zero nonzero dims = .ok () := by
  refine checkDimensions_ok.mpr ⟨h.nodup, fun d hd => ?_, fun d _ => ?_⟩
  · rw [hget]
    exact (h.zero d).mp hd
  · rw [hget]
    exact or_iff_not_imp_left.mpr (mt (h.zero d).mpr)

omit [DecidableEq R] in
/-- A list that is read and checked is a template's. -/
theorem RuntimeList.Spelling.template {D : Type} [DecidableEq D] {list : RuntimeList D}
    (spelling : list.Spelling R) (all : List R) {config : DictionaryAttr} {members : List D} {u : Unit}
    (hall : ∀ r, r ∈ all) (hstated : ∀ d, config.getU32 (spelling.nameOf d) = .ok (value d))
    (hparse : list.parse config = .ok members)
    (hcheck : list.checkTemplate members
      (all.map fun r => (spelling.encode r, spelling.nameOf r, value r)) = .ok u) :
    ∃ dims, members = dims.map spelling.encode ∧ IsTemplate dims value ∧
      Spelled spelling config dims value := by
  obtain ⟨dims, hnodup, rfl, hlisted⟩ := spelling.parse_ok.mp hparse
  exact ⟨dims, rfl, ⟨hnodup, (spelling.checkTemplate_ok hall value).mp hcheck⟩, hlisted, hstated⟩

end Template

/-! ### Requantization -/

/-- The scales are calibration data whose ratio a multiplier encodes. -/
def Encodes (fields : QuantizationFields) (runtimeOutputScale : Bool) (multiplier : Multiplier) : Prop :=
  let outputScale := if runtimeOutputScale then F32.one else fields.outputScale
  (F32.IsFinite fields.inputScale ∧ F32.IsFinite fields.weightsScale ∧ F32.IsFinite outputScale ∧
      F32.IsPositive fields.inputScale ∧ F32.IsPositive fields.weightsScale ∧
      F32.IsPositive outputScale) ∧
    Multiplier.tryFromRatio (requantizationRatio fields.inputScale fields.weightsScale outputScale) =
      .ok multiplier

def quantizationOf (fields : QuantizationFields) (multiplier : Multiplier) : Quantization where
  inputZeroPoint := asI32 fields.inputZeroPoint
  outputZeroPoint := asI32 fields.outputZeroPoint
  weightZeroPoint := asI32 fields.weightsZeroPoint
  multiplier := multiplier

/-- The precision a table's name and scales stand for. -/
def Means (fields : QuantizationFields) (runtimeOutputScale : Bool) :
    Schema.Precision → Precision → Prop
  | .fp16, precision => precision = .fp16
  | .int8, precision => ∃ multiplier, Encodes fields runtimeOutputScale multiplier ∧
      precision = .int8 (quantizationOf fields multiplier)
  | .int8Accumulator, precision => ∃ multiplier, Encodes fields runtimeOutputScale multiplier ∧
      precision = .int8Accumulator (quantizationOf fields multiplier)
  | .other _, _ => False

/-- The scales kept beside a precision. -/
def scalesOf (fields : QuantizationFields) : Schema.Precision → Option Scales
  | .fp16 | .other _ => none
  | .int8 | .int8Accumulator => some ⟨fields.inputScale, fields.weightsScale⟩

theorem decodeQuantization_ok {fields : QuantizationFields} {runtimeOutputScale : Bool}
    {quantization : Quantization} :
    decodeQuantization fields runtimeOutputScale = .ok quantization ↔
      ∃ multiplier, Encodes fields runtimeOutputScale multiplier ∧
        quantization = quantizationOf fields multiplier := by
  unfold decodeQuantization Encodes
  simp only [bind_ok, unlessErr_ok, exists_const, mapError_ok, pure_ok]
  constructor
  · rintro ⟨hscales, multiplier, hratio, rfl⟩
    exact ⟨multiplier, ⟨hscales, hratio⟩, rfl⟩
  · rintro ⟨multiplier, ⟨hscales, hratio⟩, rfl⟩
    exact ⟨hscales, multiplier, hratio, rfl⟩

/-- A precision is decoded where it means something, the accumulators only of zero zero points. -/
theorem decodePrecision_ok {fields : QuantizationFields} {runtimeOutputScale : Bool}
    {stored : Schema.Precision} {precision : Precision} {scales : Option Scales}
    (haccumulator : stored = .int8Accumulator →
      fields.inputZeroPoint = 0 ∧ fields.outputZeroPoint = 0 ∧ fields.weightsZeroPoint = 0) :
    decodePrecision stored fields runtimeOutputScale = .ok (precision, scales) ↔
      Means fields runtimeOutputScale stored precision ∧ scales = scalesOf fields stored := by
  cases stored with
  | int8 =>
    simp only [decodePrecision, bind_ok, decodeQuantization_ok, pure_ok, Prod.mk.injEq, Means, scalesOf]
    constructor
    · rintro ⟨_, ⟨multiplier, hencodes, rfl⟩, rfl, rfl⟩
      exact ⟨⟨multiplier, hencodes, rfl⟩, rfl⟩
    · rintro ⟨⟨multiplier, hencodes, rfl⟩, rfl⟩
      exact ⟨_, ⟨multiplier, hencodes, rfl⟩, rfl, rfl⟩
  | int8Accumulator =>
    simp only [decodePrecision, bind_ok, decodeQuantization_ok, unlessErr_ok, exists_const, pure_ok,
      Prod.mk.injEq, Means, scalesOf]
    constructor
    · rintro ⟨_, ⟨multiplier, hencodes, rfl⟩, -, rfl, rfl⟩
      exact ⟨⟨multiplier, hencodes, rfl⟩, rfl⟩
    · rintro ⟨⟨multiplier, hencodes, rfl⟩, rfl⟩
      exact ⟨_, ⟨multiplier, hencodes, rfl⟩, haccumulator rfl, rfl, rfl⟩
  | fp16 =>
    simp only [decodePrecision, Except.ok.injEq, Prod.mk.injEq, Means, scalesOf]
    exact and_congr eq_comm eq_comm
  | other value =>
    simp only [decodePrecision, Means, false_and, reduceCtorEq]

/-! ### Convolutions -/

def conv2dQuantization (t : Conv2DDef) : QuantizationFields :=
  ⟨t.inputZeroPoint, t.outputZeroPoint, t.weightsZeroPoint, t.inputScale, t.weightsScale, t.outputScale⟩

/-- What a written convolution keeps of the checks. -/
structure Conv2dWritten (t : Conv2DDef) (dims : List RuntimeConv2dDimension)
    (params : List RuntimeConv2dQuantParam) : Prop where
  activation : ∃ a, decodeActivation t.activation t.activationCmp = .ok a
  epilogue : ∃ a, decodeEpilogueActivation t.epilogueActivation = .ok a
  accumulator : t.precision = .int8Accumulator →
    t.inputZeroPoint = 0 ∧ t.outputZeroPoint = 0 ∧ t.weightsZeroPoint = 0
  dimensions : t.runtimeDimensions = dims.map encodeConv2DDimension
  template : IsTemplate dims fun d => conv2dFields.get d t
  paramsNodup : params.Nodup
  quantization : t.runtimeQuantization = params.map encodeConv2DQuantParam
  int8 : params ≠ [] → t.precision = .int8
  unset : ∀ param ∈ params, param.isUnset (quantizationOf (conv2dQuantization t) ⟨0, 0⟩) = true

theorem checkQuantTemplate_ok {runtime : List Conv2DQuantParam}
    {params : List (Conv2DQuantParam × String × Bool)} {u : Unit}
    (h : checkQuantTemplate runtime params = .ok u) :
    ∀ entry ∈ params, entry.1 ∈ runtime → entry.2.2 = true := by
  induction params with
  | nil => exact List.forall_mem_nil _
  | cons entry params ih =>
    obtain ⟨param, name, isZero⟩ := entry
    simp only [checkQuantTemplate, bind_ok, unlessErr_ok, exists_const] at h
    exact List.forall_mem_cons.mpr ⟨h.1, ih h.2.2⟩

theorem readConv2d_ok {config : DictionaryAttr} {t : Conv2DDef} (h : readConv2d config = .ok t) :
    (∃ name, activationNamed name = some t.activation) ∧
      (∃ a, decodeEpilogueActivation t.epilogueActivation = .ok a) ∧
      ∀ d, config.getU32 (conv2dSpelling.nameOf d) = .ok (conv2dFields.get d t) := by
  unfold readConv2d parseActivationAndPrecision at h
  simp only [bind_ok, pure_ok, named_ok] at h
  obtain ⟨padTop, -, padLeft, -, add, -, ⟨dense, layout⟩, -, packed, -, epilogue, hepilogue, width,
    hwidth, height, hheight, inChannels, hin, outputWidth, -, outputHeight, -, outChannels, hout,
    weightsWidth, hww, weightsHeight, hwh, stride, -, depthwise, -, inputZero, -, outputZero, -,
    weightsZero, -, inputScale, -, weightsScale, -, outputScale, -, truncate, -, cmp, -,
    ⟨activation, precision⟩, ⟨name, -, a, ha, _, -, p, -, heq⟩, rfl⟩ := h
  cases heq
  refine ⟨⟨name, ha⟩, ?_, fun d => ?_⟩
  · unfold parseEpilogueActivation at hepilogue
    split at hepilogue
    · cases hepilogue
      exact ⟨_, rfl⟩
    · simp only [bind_ok, named_ok] at hepilogue
      obtain ⟨_, -, hnamed⟩ := hepilogue
      exact decodes_epilogueActivation hnamed
  · cases d <;> assumption

theorem conv2dWritten {config : Option DictionaryAttr} {t : Conv2DDef}
    (h : buildRocketConv2dConfigFromTarget config = .ok t) :
    ∃ dictionary dims params, config = some dictionary ∧ Conv2dWritten t dims params ∧
      Spelled conv2dSpelling dictionary dims fun d => conv2dFields.get d t := by
  unfold buildRocketConv2dConfigFromTarget checkAccumulator parseQuantization at h
  simp only [bind_ok, okOr_ok, unlessErr_ok, exists_const, pure_ok] at h
  obtain ⟨dictionary, rfl, _, -, shape, hread, ⟨-, haccumulator⟩, dimensions, hdims, _, htemplate,
    params, ⟨entries, hentries, hint8, hparams⟩, _, hquant, rfl⟩ := h
  obtain ⟨⟨name, hactivation⟩, hepilogue, hstated⟩ := readConv2d_ok hread
  obtain ⟨dims, rfl, hzero, hspelled⟩ := conv2dSpelling.template RuntimeConv2dDimension.all
    (fun r => by cases r <;> decide) hstated hdims htemplate
  have hparse : conv2dQuantParams.parse dictionary = .ok params := by
    unfold RuntimeList.parse
    simp only [bind_ok]
    exact ⟨entries, hentries, hparams⟩
  obtain ⟨params, hparamsNodup, rfl, hparamEntries⟩ := quantParamSpelling.parse_ok.mp hparse
  have hkept : (fun d => conv2dFields.get d shape) = fun d => conv2dFields.get d
      { shape with
        runtimeDimensions := dims.map conv2dSpelling.encode
        runtimeQuantization := params.map quantParamSpelling.encode } := by
    funext d
    cases d <;> rfl
  refine ⟨dictionary, dims, params, rfl, {
    activation := decodes_activation hactivation _
    epilogue := hepilogue
    accumulator := haccumulator
    dimensions := rfl
    template := hkept ▸ hzero
    paramsNodup := hparamsNodup
    quantization := rfl
    int8 := fun hne => hint8 ?_
    unset := fun param hparam => ?_ }, hkept ▸ hspelled⟩
  · rintro rfl
    rw [hentries] at hparamEntries
    exact hne (List.map_eq_nil_iff.mp (Except.ok.inj hparamEntries).symm)
  · have hmem : quantParamSpelling.encode param ∈ params.map quantParamSpelling.encode :=
      List.mem_map_of_mem hparam
    have hzero := checkQuantTemplate_ok hquant
    simp only [settableQuantParams, List.forall_mem_cons] at hzero
    cases param with
    | outputScale => rfl
    | inputZeroPoint =>
      have : shape.inputZeroPoint = 0 := eq_of_beq (hzero.2.1 hmem)
      simp [RuntimeConv2dQuantParam.isUnset, quantizationOf, conv2dQuantization, this, asI32]
    | outputZeroPoint =>
      have : shape.outputZeroPoint = 0 := eq_of_beq (hzero.2.2.1 hmem)
      simp [RuntimeConv2dQuantParam.isUnset, quantizationOf, conv2dQuantization, this, asI32]

/-- The executable of a written convolution. -/
def conv2dExecutable (t : Conv2DDef) (dims : List RuntimeConv2dDimension)
    (params : List RuntimeConv2dQuantParam) (precision : Precision) (activation epilogue : Activation) :
    Conv2dExecutable where
  shapeTemplate := (conv2dShape precision activation t).1
  scales := scalesOf (conv2dQuantization t) t.precision
  kernels := (conv2dShape precision activation t).2
  runtimeDimensions := dims
  runtimeQuantization := params
  epilogueAdd := t.epilogueAdd
  epilogueActivation := epilogue
  runtimeDenseReaders := t.runtimeDenseReaders
  runtimeLayout := t.runtimeLayout
  weightsPacked := t.weightsPacked

/-- The parameters a dispatch supplies are unset in the template. -/
theorem checkQuantization_unset {quantization : Quantization} {params seen : List RuntimeConv2dQuantParam}
    (hnodup : params.Nodup) (hseen : ∀ param ∈ params, param ∉ seen)
    (hunset : ∀ param ∈ params, param.isUnset quantization = true) :
    Conv2dExecutable.checkQuantization (.int8 quantization) seen params = .ok () := by
  induction params generalizing seen with
  | nil => rfl
  | cons param params ih =>
    obtain ⟨hmem, hnodup⟩ := List.nodup_cons.mp hnodup
    obtain ⟨hhead, hrest⟩ := List.forall_mem_cons.mp hseen
    obtain ⟨hzero, hunset⟩ := List.forall_mem_cons.mp hunset
    simp only [Conv2dExecutable.checkQuantization, bind_ok, unlessErr_ok, exists_const]
    refine ⟨hhead, hzero, ih hnodup (fun other hother => ?_) hunset⟩
    exact List.not_mem_cons_of_ne_of_not_mem (fun heq => hmem (heq ▸ hother)) (hrest other hother)

namespace Conv2dWritten

variable {t : Conv2DDef} {dims : List RuntimeConv2dDimension} {params : List RuntimeConv2dQuantParam}
  {precision : Precision} {activation epilogue : Activation}

/-- The driver reads every name of a written table. -/
theorem decode_ok (h : Conv2dWritten t dims params) {executable : Conv2dExecutable} :
    decodeConv2d t = .ok executable ↔
      ∃ precision activation epilogue,
        Means (conv2dQuantization t) (params.contains .outputScale) t.precision precision ∧
          decodeActivation t.activation t.activationCmp = .ok activation ∧
          decodeEpilogueActivation t.epilogueActivation = .ok epilogue ∧
          conv2dExecutable t dims params precision activation epilogue = executable := by
  have hparams : t.runtimeQuantization.mapM decodeConv2DQuantParam = .ok params := by
    rw [h.quantization]
    exact mapM_map_ok (fun param => by cases param <;> rfl) params
  have hdims : t.runtimeDimensions.mapM decodeConv2DDimension = .ok dims := by
    rw [h.dimensions]
    exact mapM_map_ok (fun d => by cases d <;> rfl) dims
  unfold decodeConv2d
  simp only [hparams, hdims, bind_ok, pure_ok, Except.ok.injEq, exists_eq_left']
  constructor
  · rintro ⟨⟨precision, scales⟩, hprecision, activation, ha, epilogue, he, rfl⟩
    obtain ⟨hmeans, rfl⟩ := (decodePrecision_ok h.accumulator).mp hprecision
    exact ⟨precision, activation, epilogue, hmeans, ha, he, rfl⟩
  · rintro ⟨precision, activation, epilogue, hmeans, ha, he, rfl⟩
    have hprecision := (decodePrecision_ok h.accumulator).mpr ⟨hmeans, rfl⟩
    exact ⟨_, hprecision, activation, ha, epilogue, he, rfl⟩

/-- Its template is refused for static geometry alone. -/
theorem validates (h : Conv2dWritten t dims params)
    (hmeans : Means (conv2dQuantization t) (params.contains .outputScale) t.precision precision) :
    (conv2dExecutable t dims params precision activation epilogue).validateTemplate = .ok () ↔
      (dims = [] → params = [] → validateConvShape (conv2dShape precision activation t).1
        (conv2dShape precision activation t).2 = .ok ()) := by
  have hget (d : RuntimeConv2dDimension) : RuntimeConv2dDimension.get
      (conv2dShape precision activation t).1 (conv2dShape precision activation t).2 d =
        conv2dFields.get d t := by cases d <;> rfl
  have hquantization : Conv2dExecutable.checkQuantization precision [] params = .ok () := by
    cases params with
    | nil => rfl
    | cons param params =>
      have hint8 := h.int8 (List.cons_ne_nil param params)
      rw [hint8] at hmeans
      obtain ⟨multiplier, -, rfl⟩ := hmeans
      refine checkQuantization_unset h.paramsNodup (fun _ _ => List.not_mem_nil) fun other hother => ?_
      have hunset := h.unset other hother
      cases other <;> exact hunset
  have hstatic : (conv2dExecutable t dims params precision activation epilogue).runtimeDimensions = [] ∧
      (conv2dExecutable t dims params precision activation epilogue).runtimeQuantization = [] ↔
        dims = [] ∧ params = [] := Iff.rfl
  unfold Conv2dExecutable.validateTemplate
  simp only [bind_unit_ok, hstatic]
  refine Iff.trans (and_iff_right (h.template.checks hget _ _ _))
    (Iff.trans (and_iff_right hquantization) ?_)
  by_cases hnone : dims = [] ∧ params = []
  · rw [if_pos hnone, orRefusal_ok]
    exact ⟨fun hvalid _ _ => hvalid, fun hvalid => hvalid hnone.1 hnone.2⟩
  · rw [if_neg hnone]
    exact iff_of_true rfl fun hdims hparams => absurd ⟨hdims, hparams⟩ hnone

end Conv2dWritten

/-! ### Matmuls -/

def matmulQuantization (t : MatmulDef) : QuantizationFields :=
  ⟨t.inputZeroPoint, t.outputZeroPoint, t.weightsZeroPoint, t.inputScale, t.weightsScale, t.outputScale⟩

/-- What a written matmul keeps of the checks. -/
structure MatmulWritten (t : MatmulDef) (dims : List RuntimeMatmulDimension) : Prop where
  activation : ∃ a, decodeActivation t.activation t.activationCmp = .ok a
  precision : t.precision ≠ .int8Accumulator
  dimensions : t.runtimeDimensions = dims.map encodeMatmulDimension
  template : IsTemplate dims fun d => matmulFields.get d t

theorem readMatmul_ok {config : DictionaryAttr} {m k n : Nat} {t : FullyConnectedDef}
    (h : readMatmul config m k n = .ok t) :
    (∃ a, decodeActivation t.activation t.activationCmp = .ok a) ∧ t.m = m ∧ t.k = k ∧ t.n = n := by
  unfold readMatmul parseActivationAndPrecision at h
  simp only [bind_ok, pure_ok, named_ok] at h
  obtain ⟨inputZero, -, outputZero, -, weightsZero, -, inputScale, -, weightsScale, -, outputScale, -,
    truncate, -, cmp, -, ⟨activation, precision⟩, ⟨name, -, a, ha, _, -, p, -, heq⟩, rfl⟩ := h
  cases heq
  exact ⟨decodes_activation ha _, rfl, rfl, rfl⟩

theorem matmulWritten {config : Option DictionaryAttr} {t : MatmulDef}
    (h : buildRocketMatmulConfigFromTarget config = .ok t) :
    ∃ dictionary dims, config = some dictionary ∧ MatmulWritten t dims ∧
      Spelled matmulSpelling dictionary dims fun d => matmulFields.get d t := by
  unfold buildRocketMatmulConfigFromTarget at h
  simp only [bind_ok, okOr_ok, unlessErr_ok, exists_const, pure_ok] at h
  obtain ⟨dictionary, rfl, _, -, m, hm, k, hk, n, hn, shape, hread, hprecision, dimensions, hdims, _,
    htemplate, ⟨dense, layout⟩, -, packed, -, htable⟩ := h
  obtain ⟨hactivation, -, -, -⟩ := readMatmul_ok hread
  have hstated : ∀ d, dictionary.getU32 (matmulSpelling.nameOf d) = .ok (matmulFields.get d t) := by
    subst htable
    intro d
    cases d <;> assumption
  have hcheck : matmulDimensions.checkTemplate dimensions (RuntimeMatmulDimension.all.map fun d =>
      (matmulSpelling.encode d, matmulSpelling.nameOf d, matmulFields.get d t)) = .ok () := by
    subst htable
    exact htemplate
  obtain ⟨dims, rfl, hzero, hspelled⟩ :=
    matmulSpelling.template RuntimeMatmulDimension.all (fun r => by cases r <;> decide) hstated hdims hcheck
  refine ⟨dictionary, dims, rfl, ?_, hspelled⟩
  subst htable
  exact ⟨hactivation, hprecision, rfl, hzero⟩

/-- The executable of a matmul's table. -/
def matmulExecutable (t : MatmulDef) (dims : List RuntimeMatmulDimension) (precision : Precision)
    (activation : Activation) : MatmulExecutable where
  shapeTemplate := matmulShape precision activation t
  runtimeDimensions := dims
  runtimeDenseReaders := t.runtimeDenseReaders
  runtimeLayout := t.runtimeLayout
  weightsPacked := t.weightsPacked

/-- A precision that is not the accumulators' does not write them. -/
theorem Means.writesAccumulators {fields : QuantizationFields} {stored : Schema.Precision}
    {precision : Precision} (h : Means fields false stored precision)
    (hstored : stored ≠ .int8Accumulator) : precision.writesAccumulators = false := by
  cases stored with
  | int8 =>
    obtain ⟨_, -, rfl⟩ := h
    rfl
  | fp16 =>
    cases h
    rfl
  | int8Accumulator => exact absurd rfl hstored
  | other _ => exact h.elim

theorem decodeMatmulTable_ok {m k n cmp : Nat} {stored : Schema.Precision} {fields : QuantizationFields}
    {activation : Schema.Activation} {shape : Fc.Shape} {scales : Option Scales}
    (hstored : stored ≠ .int8Accumulator) :
    decodeMatmulTable m k n stored fields activation cmp = .ok (shape, scales) ↔
      ∃ precision a, Means fields false stored precision ∧ decodeActivation activation cmp = .ok a ∧
        shape = { m, k, n, precision, activation := a } ∧ scales = scalesOf fields stored := by
  have hprecision {precision : Precision} {scales : Option Scales} :
      Driver.decodePrecision stored fields false = .ok (precision, scales) ↔
        Means fields false stored precision ∧ scales = scalesOf fields stored :=
    decodePrecision_ok fun h => absurd h hstored
  unfold decodeMatmulTable
  simp only [bind_ok, unlessErr_ok, exists_const, pure_ok, Prod.mk.injEq]
  constructor
  · rintro ⟨⟨precision, scales⟩, hdecode, -, a, ha, rfl, rfl⟩
    obtain ⟨hmeans, rfl⟩ := hprecision.mp hdecode
    exact ⟨precision, a, hmeans, ha, rfl, rfl⟩
  · rintro ⟨precision, a, hmeans, ha, rfl, rfl⟩
    exact ⟨(precision, _), hprecision.mpr ⟨hmeans, rfl⟩, hmeans.writesAccumulators hstored, a, ha, rfl,
      rfl⟩

/-- A static template is resolved with no constants: it may declare none, and its shape must lower. -/
theorem matmul_resolves_nothing {executable : MatmulExecutable}
    (hstatic : executable.runtimeDimensions = []) :
    (∃ shape, executable.resolveShape [] = .ok shape) ↔
      (executable.runtimeDenseReaders = false ∧ executable.runtimeLayout = false) ∧
        Lowers executable.shapeTemplate := by
  have hfold (constants : Bytes) (count : Nat) :
      ([].zip (chunksExact constants count)).foldlM setDimension executable.shapeTemplate =
        .ok executable.shapeTemplate := rfl
  unfold MatmulExecutable.resolveShape
  simp only [hstatic, hfold, bind_ok, unlessErr_ok, exists_const, orRefusal_ok, pure_ok,
    Except.ok.injEq, exists_eq_left', List.length_nil, Nat.zero_add]
  constructor
  · rintro ⟨shape, hcount, conv, hconv, _, hvalid, rfl⟩
    refine ⟨?_, conv, hconv, hvalid⟩
    by_contra hflags
    rw [not_and_or, Bool.not_eq_false, Bool.not_eq_false] at hflags
    rw [if_pos hflags] at hcount
    cases hcount
  · rintro ⟨⟨hdense, hlayout⟩, conv, hconv, hvalid⟩
    refine ⟨_, ?_, conv, hconv, (), hvalid, rfl⟩
    rw [hdense, hlayout]
    rfl

namespace MatmulWritten

variable {t : MatmulDef} {dims : List RuntimeMatmulDimension}
  {precision : Precision} {activation : Activation}

theorem decode_ok (h : MatmulWritten t dims) {executable : MatmulExecutable × Option Scales} :
    decodeMatmul t = .ok executable ↔
      ∃ precision activation,
        Means (matmulQuantization t) false t.precision precision ∧
          decodeActivation t.activation t.activationCmp = .ok activation ∧
          (matmulExecutable t dims precision activation, scalesOf (matmulQuantization t) t.precision) =
            executable := by
  have hdims : t.runtimeDimensions.mapM decodeMatmulDimension = .ok dims := by
    rw [h.dimensions]
    exact mapM_map_ok (fun d => by cases d <;> rfl) dims
  unfold decodeMatmul
  simp only [hdims, bind_ok, pure_ok, Except.ok.injEq, exists_eq_left']
  constructor
  · rintro ⟨⟨shape, scales⟩, hshape, rfl⟩
    obtain ⟨precision, a, hmeans, ha, rfl, rfl⟩ := (decodeMatmulTable_ok h.precision).mp hshape
    exact ⟨precision, a, hmeans, ha, rfl⟩
  · rintro ⟨precision, a, hmeans, ha, rfl⟩
    exact ⟨_, (decodeMatmulTable_ok h.precision).mpr ⟨precision, a, hmeans, ha, rfl, rfl⟩, rfl⟩

theorem validates (h : MatmulWritten t dims) :
    (matmulExecutable t dims precision activation).validateTemplate = .ok () ↔
      (dims = [] → (t.runtimeDenseReaders = false ∧ t.runtimeLayout = false) ∧
        Lowers (matmulShape precision activation t)) := by
  have hget (d : RuntimeMatmulDimension) :
      RuntimeMatmulDimension.get (matmulShape precision activation t) d = matmulFields.get d t := by
    cases d <;> rfl
  unfold MatmulExecutable.validateTemplate
  rw [bind_unit_ok]
  refine Iff.trans (and_iff_right (h.template.checks hget _ _ _)) ?_
  by_cases hnone : dims = []
  · rw [if_pos (show (matmulExecutable t dims precision activation).runtimeDimensions = [] from hnone)]
    have hresolves : (∃ shape, (matmulExecutable t dims precision activation).resolveShape [] =
        .ok shape) ↔ (t.runtimeDenseReaders = false ∧ t.runtimeLayout = false) ∧
          Lowers (matmulShape precision activation t) := matmul_resolves_nothing hnone
    simp only [bind_ok, pure_ok]
    constructor
    · rintro ⟨shape, hshape, -⟩ -
      exact hresolves.mp ⟨shape, hshape⟩
    · intro hadmits
      obtain ⟨shape, hshape⟩ := hresolves.mpr (hadmits hnone)
      exact ⟨shape, hshape, trivial⟩
  · rw [if_neg (show ¬ (matmulExecutable t dims precision activation).runtimeDimensions = [] from hnone)]
    exact iff_of_true rfl fun hdims => absurd hdims hnone

end MatmulWritten

/-- The deprecated kernel is a matmul that lists nothing. -/
def asMatmul (t : FullyConnectedDef) : MatmulDef where
  m := t.m
  k := t.k
  n := t.n
  inputZeroPoint := t.inputZeroPoint
  outputZeroPoint := t.outputZeroPoint
  weightsZeroPoint := t.weightsZeroPoint
  inputScale := t.inputScale
  weightsScale := t.weightsScale
  outputScale := t.outputScale
  truncateBits := t.truncateBits
  activation := t.activation
  activationCmp := t.activationCmp
  precision := t.precision
  runtimeDimensions := []
  runtimeDenseReaders := false
  weightsPacked := false
  runtimeLayout := false

theorem fullyConnectedWritten {config : Option DictionaryAttr} {t : FullyConnectedDef}
    (h : buildRocketFullyConnectedConfigFromTarget config = .ok t) : MatmulWritten (asMatmul t) [] := by
  unfold buildRocketFullyConnectedConfigFromTarget at h
  simp only [bind_ok, okOr_ok, unlessErr_ok, exists_const, pure_ok] at h
  obtain ⟨dictionary, rfl, _, -, m, -, k, -, n, -, hnonzero, shape, hread, hprecision, rfl⟩ := h
  obtain ⟨hactivation, hm, hk, hn⟩ := readMatmul_ok hread
  refine ⟨hactivation, hprecision, rfl, List.nodup_nil, fun d => ?_⟩
  refine iff_of_false List.not_mem_nil ?_
  cases d
  · exact fun hzero => hnonzero.1 (hm ▸ hzero)
  · exact fun hzero => hnonzero.2.1 (hk ▸ hzero)
  · exact fun hzero => hnonzero.2.2 (hn ▸ hzero)

theorem decode_fullyConnected (t : FullyConnectedDef) :
    decodeFlatbufferShape (.fullyConnected t) = decodeFlatbufferShape (.matmul (asMatmul t)) := by
  have hdecode : decodeFullyConnected t = decodeMatmul (asMatmul t) := by
    unfold decodeFullyConnected decodeMatmul
    cases h : decodeMatmulTable t.m t.k t.n t.precision
        ⟨t.inputZeroPoint, t.outputZeroPoint, t.weightsZeroPoint, t.inputScale, t.weightsScale,
          t.outputScale⟩ t.activation t.activationCmp with
    | error e =>
      unfold asMatmul
      rw [h]
      rfl
    | ok shape =>
      unfold asMatmul
      rw [h]
      rfl
  simp only [decodeFlatbufferShape, hdecode]

/-! ### Pools -/

/-- What a written pool keeps of the checks. -/
structure PoolingWritten (t : PoolingDef) (dims : List RuntimePoolingDimension) : Prop where
  method : ∃ method, decodePoolingMethod t.method = .ok method
  precision : ∃ precision, decodePoolingPrecision t.precision = .ok precision
  dimensions : t.runtimeDimensions = dims.map encodePoolingDimension
  template : IsTemplate dims fun d => poolingFields.get d t
  outputs : dims = [] → t.outputWidth ≠ 0 ∧ t.outputHeight ≠ 0

theorem readPooling_ok {config : DictionaryAttr} {t : PoolingDef} (h : readPooling config = .ok t) :
    (∃ method, decodePoolingMethod t.method = .ok method) ∧
      (∃ precision, decodePoolingPrecision t.precision = .ok precision) ∧
      ∀ d, config.getU32 (poolingSpelling.nameOf d) = .ok (poolingFields.get d t) := by
  unfold readPooling at h
  simp only [bind_ok, pure_ok, named_ok] at h
  obtain ⟨width, hwidth, height, hheight, channels, hchannels, outputWidth, -, outputHeight, -,
    kernelWidth, hkw, kernelHeight, hkh, strideX, hsx, strideY, hsy, padLeft, -, padTop, -, padRight, -,
    padBottom, -, _, -, method, hmethod, _, -, precision, hprecision, rfl⟩ := h
  refine ⟨decodes_poolingMethod hmethod, decodes_poolingPrecision hprecision, fun d => ?_⟩
  cases d <;> assumption

theorem poolingWritten {config : Option DictionaryAttr} {t : PoolingDef}
    (h : buildRocketPoolingConfigFromTarget config = .ok t) :
    ∃ dictionary dims, config = some dictionary ∧ PoolingWritten t dims ∧
      Spelled poolingSpelling dictionary dims fun d => poolingFields.get d t := by
  unfold buildRocketPoolingConfigFromTarget at h
  simp only [bind_ok, okOr_ok, unlessErr_ok, exists_const, pure_ok] at h
  obtain ⟨dictionary, rfl, _, -, shape, hread, dimensions, hdims, _, htemplate, -, houtputs,
    ⟨dense, layout⟩, -, htable⟩ := h
  obtain ⟨hmethod, hprecision, hstated⟩ := readPooling_ok hread
  have hkept : (fun d => poolingFields.get d shape) = fun d => poolingFields.get d t := by
    subst htable
    funext d
    cases d <;> rfl
  obtain ⟨dims, rfl, hzero, hspelled⟩ := poolingSpelling.template RuntimePoolingDimension.all
    (fun r => by cases r <;> decide) hstated hdims htemplate
  rw [hkept] at hzero hspelled
  refine ⟨dictionary, dims, rfl, ?_, hspelled⟩
  subst htable
  exact ⟨hmethod, hprecision, rfl, hzero, fun hnone => houtputs (List.map_eq_nil_iff.mpr hnone)⟩

/-- The executable of a written pool. -/
def poolingExecutable (t : PoolingDef) (dims : List RuntimePoolingDimension)
    (method : Pooling.PoolingMethod) (precision : Pooling.PoolingPrecision) (padValue : Nat) :
    PoolingExecutable where
  shapeTemplate := poolingShape method precision padValue t
  runtimeDimensions := dims
  runtimeDenseReaders := t.runtimeDenseReaders
  runtimeLayout := t.runtimeLayout

/-- The geometry of a pool that lists nothing: its output extents are those of the window, and the PPU
can be programmed with it. -/
def StaticPool (method : Pooling.PoolingMethod) (precision : Pooling.PoolingPrecision) (padValue : Nat)
    (t : PoolingDef) : Prop :=
  WindowFits t ∧ (t.outputWidth, t.outputHeight) = floorExtents t ∧
    (derivedShape method precision padValue t).validate = .ok ()

/-- A static template is resolved with no constants: it may declare none. -/
theorem pooling_resolves_nothing {executable : PoolingExecutable}
    (hstatic : executable.runtimeDimensions = []) {out : Pooling.PoolingShape} :
    executable.resolveShape [] = .ok out ↔
      (executable.runtimeDenseReaders = false ∧ executable.runtimeLayout = false) ∧
        PoolingExecutable.deriveOutput true executable.shapeTemplate = .ok out ∧
        out.validate = .ok () := by
  have hcount : executable.constantCount =
      trailingCount executable.runtimeDenseReaders executable.runtimeLayout := by
    unfold PoolingExecutable.constantCount
    rw [hstatic, List.length_nil, Nat.zero_add]
  have hnone : ([] : Bytes).length = executable.constantCount * 4 ↔
      executable.runtimeDenseReaders = false ∧ executable.runtimeLayout = false := by
    rw [hcount]
    cases executable.runtimeDenseReaders <;> cases executable.runtimeLayout <;> decide
  unfold PoolingExecutable.resolveShape
  simp only [hnone, hstatic, setDimensions, bind_ok, unlessErr_ok, exists_const, pure_ok, mapError_ok,
    exists_eq_left']
  constructor
  · rintro ⟨hflags, out, hderive, _, hvalid, rfl⟩
    exact ⟨hflags, hderive, hvalid⟩
  · rintro ⟨hflags, hderive, hvalid⟩
    exact ⟨hflags, out, hderive, (), hvalid, rfl⟩

namespace PoolingWritten

variable {t : PoolingDef} {dims : List RuntimePoolingDimension} {method : Pooling.PoolingMethod}
  {precision : Pooling.PoolingPrecision} {padValue : Nat}

theorem decode_ok (h : PoolingWritten t dims) {executable : PoolingExecutable} :
    decodePooling t = .ok executable ↔
      ∃ method precision padValue,
        decodePoolingMethod t.method = .ok method ∧
          decodePoolingPrecision t.precision = .ok precision ∧
          poolingFill method precision t = some padValue ∧
          poolingExecutable t dims method precision padValue = executable := by
  have hdims : t.runtimeDimensions.mapM decodePoolingDimension = .ok dims := by
    rw [h.dimensions]
    exact mapM_map_ok (fun d => by cases d <;> rfl) dims
  unfold decodePooling
  simp only [hdims, bind_ok, okOr_ok, pure_ok, Except.ok.injEq, exists_eq_left']
  constructor
  · rintro ⟨method, hm, precision, hp, padValue, hfill, rfl⟩
    exact ⟨method, precision, padValue, hm, hp, hfill, rfl⟩
  · rintro ⟨method, precision, padValue, hm, hp, hfill, rfl⟩
    exact ⟨method, hm, precision, hp, padValue, hfill, rfl⟩

theorem validates (h : PoolingWritten t dims) :
    (poolingExecutable t dims method precision padValue).validateTemplate = .ok () ↔
      (dims = [] → (t.runtimeDenseReaders = false ∧ t.runtimeLayout = false) ∧
        StaticPool method precision padValue t) := by
  have hget (d : RuntimePoolingDimension) : RuntimePoolingDimension.get
      (poolingShape method precision padValue t) d = poolingFields.get d t := by cases d <;> rfl
  unfold PoolingExecutable.validateTemplate
  rw [bind_unit_ok]
  refine Iff.trans (and_iff_right (h.template.checks hget _ _ _)) ?_
  by_cases hnone : dims = []
  · rw [if_pos (show (poolingExecutable t dims method precision padValue).runtimeDimensions = [] from
      hnone)]
    have hnonzero (d : RuntimePoolingDimension) : poolingFields.get d t ≠ 0 := fun hzero =>
      List.not_mem_nil (hnone ▸ (h.template.zero d).mpr hzero)
    have hstates : StatesOutputs t ↔ (t.outputWidth, t.outputHeight) = floorExtents t :=
      or_iff_right fun hunstated => (h.outputs hnone).1 (Prod.mk.inj hunstated).1
    have hderives {out : Pooling.PoolingShape} : PoolingExecutable.deriveOutput true
        (poolingShape method precision padValue t) = .ok out ↔
          WindowFits t ∧ (t.outputWidth, t.outputHeight) = floorExtents t ∧
            derivedShape method precision padValue t = out := by
      simp only [deriveOutput_ok hnonzero, true_imp_iff, hstates]
    have hresolves {out : Pooling.PoolingShape} :
        (poolingExecutable t dims method precision padValue).resolveShape [] = .ok out ↔
          (t.runtimeDenseReaders = false ∧ t.runtimeLayout = false) ∧
            PoolingExecutable.deriveOutput true (poolingShape method precision padValue t) = .ok out ∧
              out.validate = .ok () := pooling_resolves_nothing hnone
    simp only [bind_ok, pure_ok]
    constructor
    · rintro ⟨out, hout, -⟩ -
      obtain ⟨hflags, hderive, hvalid⟩ := hresolves.mp hout
      obtain ⟨hfits, hextents, rfl⟩ := hderives.mp hderive
      exact ⟨hflags, hfits, hextents, hvalid⟩
    · intro hadmits
      obtain ⟨hflags, hfits, hextents, hvalid⟩ := hadmits hnone
      exact ⟨_, hresolves.mpr ⟨hflags, hderives.mpr ⟨hfits, hextents, rfl⟩, hvalid⟩, trivial⟩
  · rw [if_neg (show ¬ (poolingExecutable t dims method precision padValue).runtimeDimensions = [] from
      hnone)]
    exact iff_of_true rfl fun hdims => absurd hdims hnone

end PoolingWritten

/-! ### Element-wise operations -/

/-- What the three written tables keep of the checks. -/
structure ElementwiseWritten (g : ElementwiseGeometry) (listed : List ElementwiseDimension)
    (dims : List RuntimeElementwiseDimension) : Prop where
  dimensions : listed = dims.map encodeElementwiseDimension
  template : IsTemplate dims fun d => geometryFields.get d g

theorem parseElementwiseRuntime_ok {config : DictionaryAttr} {g : ElementwiseGeometry}
    {runtime : ElementwiseRuntime}
    (hstated : ∀ d, config.getU32 (elementwiseSpelling.nameOf d) = .ok (geometryFields.get d g))
    (h : parseElementwiseRuntime config g.width g.height g.channels = .ok runtime) :
    ∃ dims, ElementwiseWritten g runtime.runtimeDimensions dims ∧
      Spelled elementwiseSpelling config dims fun d => geometryFields.get d g := by
  unfold parseElementwiseRuntime at h
  simp only [bind_ok, pure_ok] at h
  obtain ⟨dimensions, hdims, _, htemplate, ⟨dense, layout⟩, -, rfl⟩ := h
  obtain ⟨dims, rfl, hzero, hspelled⟩ := elementwiseSpelling.template
    RuntimeElementwiseDimension.all (fun r => by cases r <;> decide) hstated hdims htemplate
  exact ⟨dims, ⟨rfl, hzero⟩, hspelled⟩

namespace ElementwiseWritten

variable {g : ElementwiseGeometry} {listed : List ElementwiseDimension}
  {dims : List RuntimeElementwiseDimension}

theorem decode_ok (h : ElementwiseWritten g listed dims) :
    listed.mapM decodeElementwiseDimension = .ok dims := by
  rw [h.dimensions]
  exact decodeDimensions_encode

theorem validates (h : ElementwiseWritten g listed dims) (dense layout : Bool) :
    ElementwiseTemplate.validate ⟨g, dims, dense, layout⟩ = .ok () :=
  h.template.checks (fun _ => rfl) _ _ _

end ElementwiseWritten

/-- What a written unary table keeps of the checks. -/
structure UnaryWritten (t : ElementwiseUnaryDef) (dims : List RuntimeElementwiseDimension) : Prop where
  op : ∃ algo, decodeEwUnaryOp t.op = .ok algo ∧ (t.operand ≠ 0 → algo = .add)
  elementwise : ElementwiseWritten ⟨t.width, t.height, t.channels⟩ t.runtimeDimensions dims

theorem unaryWritten {config : Option DictionaryAttr} {t : ElementwiseUnaryDef}
    (h : buildRocketElementwiseUnaryConfigFromTarget config = .ok t) :
    ∃ dictionary dims, config = some dictionary ∧ UnaryWritten t dims ∧
      Spelled elementwiseSpelling dictionary dims fun d =>
        geometryFields.get d ⟨t.width, t.height, t.channels⟩ := by
  unfold buildRocketElementwiseUnaryConfigFromTarget requireElementwise at h
  simp only [bind_ok, okOr_ok, unlessErr_ok, exists_const, pure_ok, named_ok] at h
  obtain ⟨_, ⟨dictionary, rfl, _, -, rfl⟩, width, hwidth, height, hheight, channels, hchannels, _, -, op,
    hop, operand, -, hoperand, runtime, hruntime, rfl⟩ := h
  obtain ⟨dims, hwritten, hspelled⟩ := parseElementwiseRuntime_ok (g := ⟨width, height, channels⟩)
    (fun d => by cases d <;> assumption) hruntime
  obtain ⟨algo, halgo, hadd⟩ := decodes_ewUnaryOp hop
  exact ⟨dictionary, dims, rfl, ⟨⟨algo, halgo, fun hne => hadd (hoperand hne)⟩, hwritten⟩, hspelled⟩

theorem UnaryWritten.loads {t : ElementwiseUnaryDef} {dims : List RuntimeElementwiseDimension}
    (h : UnaryWritten t dims) {u : UkernelShape} :
    decodeFlatbufferShape (.elementwiseUnary t) = .ok u ↔
      ∃ algo, decodeEwUnaryOp t.op = .ok algo ∧ u = .elementwiseUnary {
        geometry := ⟨t.width, t.height, t.channels⟩, algo, operand := t.operand
        runtimeDimensions := dims, runtimeDenseReaders := t.runtimeDenseReaders
        runtimeLayout := t.runtimeLayout } := by
  simp only [decodeFlatbufferShape, decodeElementwiseUnary, h.elementwise.decode_ok, bind_ok, orUnit_ok,
    pure_ok, Except.ok.injEq, exists_eq_left']
  constructor
  · rintro ⟨_, ⟨algo, halgo, rfl⟩, _, -, rfl⟩
    exact ⟨algo, halgo, rfl⟩
  · rintro ⟨algo, halgo, rfl⟩
    obtain ⟨algo', halgo', hoperand⟩ := h.op
    cases Except.ok.inj (halgo.symm.trans halgo')
    refine ⟨_, ⟨algo, halgo, rfl⟩, (), ?_, rfl⟩
    unfold ElementwiseUnaryExecutable.validateTemplate
    rw [bind_unit_ok, unlessErr_ok]
    exact ⟨h.elementwise.validates _ _, hoperand⟩

/-- What a written binary table keeps of the checks. -/
structure BinaryWritten (t : ElementwiseBinaryDef) (dims : List RuntimeElementwiseDimension) : Prop where
  op : ∃ op, decodeEwBinaryOp t.op = .ok op
  elementwise : ElementwiseWritten ⟨t.width, t.height, t.channels⟩ t.runtimeDimensions dims

theorem binaryWritten {config : Option DictionaryAttr} {t : ElementwiseBinaryDef}
    (h : buildRocketElementwiseBinaryConfigFromTarget config = .ok t) :
    ∃ dictionary dims, config = some dictionary ∧ BinaryWritten t dims ∧
      Spelled elementwiseSpelling dictionary dims fun d =>
        geometryFields.get d ⟨t.width, t.height, t.channels⟩ := by
  unfold buildRocketElementwiseBinaryConfigFromTarget requireElementwise at h
  simp only [bind_ok, okOr_ok, pure_ok, named_ok] at h
  obtain ⟨_, ⟨dictionary, rfl, _, -, rfl⟩, width, hwidth, height, hheight, channels, hchannels, _, -, op,
    hop, runtime, hruntime, rfl⟩ := h
  obtain ⟨dims, hwritten, hspelled⟩ := parseElementwiseRuntime_ok (g := ⟨width, height, channels⟩)
    (fun d => by cases d <;> assumption) hruntime
  exact ⟨dictionary, dims, rfl, ⟨decodes_ewBinaryOp hop, hwritten⟩, hspelled⟩

theorem BinaryWritten.loads {t : ElementwiseBinaryDef} {dims : List RuntimeElementwiseDimension}
    (h : BinaryWritten t dims) {u : UkernelShape} :
    decodeFlatbufferShape (.elementwiseBinary t) = .ok u ↔
      ∃ op, decodeEwBinaryOp t.op = .ok op ∧ u = .elementwiseBinary {
        geometry := ⟨t.width, t.height, t.channels⟩, op, runtimeDimensions := dims
        runtimeDenseReaders := t.runtimeDenseReaders, runtimeLayout := t.runtimeLayout } := by
  simp only [decodeFlatbufferShape, decodeElementwiseBinary, h.elementwise.decode_ok, bind_ok, orUnit_ok,
    pure_ok, Except.ok.injEq, exists_eq_left']
  constructor
  · rintro ⟨_, ⟨op, hop, rfl⟩, _, -, rfl⟩
    exact ⟨op, hop, rfl⟩
  · rintro ⟨op, hop, rfl⟩
    exact ⟨_, ⟨op, hop, rfl⟩, (), h.elementwise.validates _ _, rfl⟩

/-- What a written lookup keeps of the checks. Its scales are positive, and may be infinite. -/
structure LutWritten (t : ElementwiseLutDef) (dims : List RuntimeElementwiseDimension) : Prop where
  fn : ∃ function, decodeLutFn t.fn = .ok function
  input : asI32 t.inputZeroPoint ∈ supportedLutZeroPoints
  output : -128 ≤ asI32 t.outputZeroPoint ∧ asI32 t.outputZeroPoint ≤ 127
  positive : F32.IsPositive t.inputScale ∧ F32.IsPositive t.outputScale
  elementwise : ElementwiseWritten ⟨t.width, t.height, t.channels⟩ t.runtimeDimensions dims

/-- A zero point comes back signed. -/
theorem asI32_toU32 {value : Int} (hlow : -128 ≤ value) (hhigh : value ≤ 127) :
    asI32 (toU32 value) = value := by
  unfold asI32 toU32
  split_ifs <;> omega

theorem lutWritten {config : Option DictionaryAttr} {t : ElementwiseLutDef}
    (h : buildRocketElementwiseLutConfigFromTarget config = .ok t) :
    ∃ dictionary dims, config = some dictionary ∧ LutWritten t dims ∧
      Spelled elementwiseSpelling dictionary dims fun d =>
        geometryFields.get d ⟨t.width, t.height, t.channels⟩ := by
  unfold buildRocketElementwiseLutConfigFromTarget at h
  simp only [bind_ok, okOr_ok, unlessErr_ok, exists_const, pure_ok, named_ok] at h
  obtain ⟨dictionary, rfl, _, -, width, hwidth, height, hheight, channels, hchannels, _, -, fn, hfn, input,
    -, output, -, hinput, houtput, inputScale, -, outputScale, -, hpositive, runtime, hruntime, rfl⟩ := h
  obtain ⟨dims, hwritten, hspelled⟩ := parseElementwiseRuntime_ok (g := ⟨width, height, channels⟩)
    (fun d => by cases d <;> assumption) hruntime
  have hrange : -128 ≤ input ∧ input ≤ 127 := by
    simp only [List.mem_cons, List.not_mem_nil, or_false] at hinput
    omega
  refine ⟨dictionary, dims, rfl, ⟨decodes_lutFn hfn, ?_, ?_, hpositive, hwritten⟩, hspelled⟩
  · rw [asI32_toU32 hrange.1 hrange.2]
    exact hinput
  · rw [asI32_toU32 houtput.1 houtput.2]
    exact houtput

theorem LutWritten.loads {t : ElementwiseLutDef} {dims : List RuntimeElementwiseDimension}
    (h : LutWritten t dims) {u : UkernelShape} :
    decodeFlatbufferShape (.elementwiseLut t) = .ok u ↔
      (F32.IsFinite t.inputScale ∧ F32.IsFinite t.outputScale) ∧
        ∃ function, decodeLutFn t.fn = .ok function ∧ u = .elementwiseLut {
          geometry := ⟨t.width, t.height, t.channels⟩, function
          inputZeroPoint := asI32 t.inputZeroPoint, outputZeroPoint := asI32 t.outputZeroPoint
          inputScale := t.inputScale, outputScale := t.outputScale, runtimeDimensions := dims
          runtimeDenseReaders := t.runtimeDenseReaders, runtimeLayout := t.runtimeLayout } := by
  simp only [decodeFlatbufferShape, decodeElementwiseLut, h.elementwise.decode_ok, bind_ok, orUnit_ok,
    pure_ok, Except.ok.injEq, exists_eq_left', ElementwiseLutExecutable.validateTemplate, unlessErr_ok,
    exists_const]
  constructor
  · rintro ⟨_, ⟨function, hfn, rfl⟩, ⟨_, -, -, -, hin, hout, -⟩, rfl⟩
    exact ⟨⟨hin, hout⟩, function, hfn, rfl⟩
  · rintro ⟨⟨hin, hout⟩, function, hfn, rfl⟩
    exact ⟨_, ⟨function, hfn, rfl⟩, ⟨(), h.elementwise.validates _ _, h.input, h.output, hin, hout,
      h.positive⟩, rfl⟩

/-! ### What the driver still refuses -/

/-- The requantization of a convolution is encoded, and one that lists nothing is planned. -/
def Conv2dAdmits (t : Conv2DDef) : Prop :=
  ∃ precision activation,
    Means (conv2dQuantization t) (t.runtimeQuantization.contains .outputScale) t.precision precision ∧
      decodeActivation t.activation t.activationCmp = .ok activation ∧
      (t.runtimeDimensions = [] → t.runtimeQuantization = [] →
        validateConvShape (conv2dShape precision activation t).1 (conv2dShape precision activation t).2 =
          .ok ())

/-- The requantization of a matmul is encoded, and one that lists nothing lowers and declares no trailing
constant. -/
def MatmulAdmits (t : MatmulDef) : Prop :=
  ∃ precision activation,
    Means (matmulQuantization t) false t.precision precision ∧
      decodeActivation t.activation t.activationCmp = .ok activation ∧
      (t.runtimeDimensions = [] → (t.runtimeDenseReaders = false ∧ t.runtimeLayout = false) ∧
        Lowers (matmulShape precision activation t))

/-- The fill of a pool is known, and one that lists nothing is programmable and declares no trailing
constant. -/
def PoolingAdmits (t : PoolingDef) : Prop :=
  ∃ method precision padValue,
    decodePoolingMethod t.method = .ok method ∧ decodePoolingPrecision t.precision = .ok precision ∧
      poolingFill method precision t = some padValue ∧
      (t.runtimeDimensions = [] → (t.runtimeDenseReaders = false ∧ t.runtimeLayout = false) ∧
        StaticPool method precision padValue t)

def Admits : KernelDef → Prop
  | .conv2d t => Conv2dAdmits t
  | .fullyConnected t => MatmulAdmits (asMatmul t)
  | .matmul t => MatmulAdmits t
  | .pooling t => PoolingAdmits t
  | .elementwiseUnary _ | .elementwiseBinary _ => True
  | .elementwiseLut t => F32.IsFinite t.inputScale ∧ F32.IsFinite t.outputScale

/-- What a written table keeps of the checks of its kernel. -/
def Written : KernelDef → Prop
  | .conv2d t => ∃ dims params, Conv2dWritten t dims params
  | .fullyConnected t => MatmulWritten (asMatmul t) []
  | .matmul t => ∃ dims, MatmulWritten t dims
  | .pooling t => ∃ dims, PoolingWritten t dims
  | .elementwiseUnary t => ∃ dims, UnaryWritten t dims
  | .elementwiseBinary t => ∃ dims, BinaryWritten t dims
  | .elementwiseLut t => ∃ dims, LutWritten t dims

/-- A table loads where the driver admits it, as an executable of its push constants. -/
def LoadsAs (kernel : KernelDef) : Prop :=
  ((∃ u, decodeFlatbufferShape kernel = .ok u) ↔ Admits kernel) ∧
    ∀ u, decodeFlatbufferShape kernel = .ok u → u.constantCount = runtimeConstantCount kernel

/-- Every kind decodes, and validates its template. -/
theorem decoded_ok {E : Type} {decode : Except Unit E} {validate : E → Except String Unit}
    {embed : E → UkernelShape} {u : UkernelShape} :
    (do
      let executable ← decode
      orUnit (validate executable)
      return embed executable) = .ok u ↔
      ∃ executable, decode = .ok executable ∧ validate executable = .ok () ∧ embed executable = u := by
  simp only [bind_ok, orUnit_ok, pure_ok]
  constructor
  · rintro ⟨executable, hdecode, _, hvalid, hembed⟩
    exact ⟨executable, hdecode, hvalid, hembed⟩
  · rintro ⟨executable, hdecode, hvalid, hembed⟩
    exact ⟨executable, hdecode, (), hvalid, hembed⟩

/-- A kind loads where it decodes to a valid template. -/
theorem LoadsAs.of_decoded {kernel : KernelDef} {E : Type} {decode : Except Unit E}
    {validate : E → Except String Unit} {embed : E → UkernelShape}
    (hkind : decodeFlatbufferShape kernel = do
      let executable ← decode
      orUnit (validate executable)
      return embed executable)
    (hadmits : (∃ executable, decode = .ok executable ∧ validate executable = .ok ()) ↔ Admits kernel)
    (hcount : ∀ executable, decode = .ok executable →
      (embed executable).constantCount = runtimeConstantCount kernel) : LoadsAs kernel := by
  have hloads {u : UkernelShape} : decodeFlatbufferShape kernel = .ok u ↔
      ∃ executable, decode = .ok executable ∧ validate executable = .ok () ∧ embed executable = u := by
    rw [hkind]
    exact decoded_ok
  refine ⟨⟨fun ⟨u, hu⟩ => hadmits.mp ?_, fun h => ?_⟩, fun u hu => ?_⟩
  · obtain ⟨executable, hdecode, hvalid, -⟩ := hloads.mp hu
    exact ⟨executable, hdecode, hvalid⟩
  · obtain ⟨executable, hdecode, hvalid⟩ := hadmits.mpr h
    exact ⟨_, hloads.mpr ⟨executable, hdecode, hvalid, rfl⟩⟩
  · obtain ⟨executable, hdecode, -, rfl⟩ := hloads.mp hu
    exact hcount executable hdecode

theorem trailingCount_eq (dense layout : Bool) :
    trailingCount dense layout = if dense || layout then 1 else 0 := by
  cases dense <;> cases layout <;> rfl

theorem Conv2dWritten.loadsAs {t : Conv2DDef} {dims : List RuntimeConv2dDimension}
    {params : List RuntimeConv2dQuantParam} (h : Conv2dWritten t dims params) : LoadsAs (.conv2d t) := by
  have hscale : t.runtimeQuantization.contains .outputScale = params.contains .outputScale := by
    rw [h.quantization, Bool.eq_iff_iff, List.contains_iff_mem, List.contains_iff_mem]
    exact List.mem_map_of_injective (a := RuntimeConv2dQuantParam.outputScale) quantParamSpelling.injective
  have hnothing : (t.runtimeDimensions = [] ↔ dims = []) ∧ (t.runtimeQuantization = [] ↔ params = []) := by
    rw [h.dimensions, h.quantization]
    exact ⟨List.map_eq_nil_iff, List.map_eq_nil_iff⟩
  refine .of_decoded rfl ⟨?_, ?_⟩ ?_
  · rintro ⟨_, hdecode, hvalid⟩
    obtain ⟨precision, activation, epilogue, hmeans, ha, -, rfl⟩ := h.decode_ok.mp hdecode
    have hstatic := (h.validates hmeans).mp hvalid
    exact ⟨precision, activation, hscale ▸ hmeans, ha,
      fun hdims hparams => hstatic (hnothing.1.mp hdims) (hnothing.2.mp hparams)⟩
  · rintro ⟨precision, activation, hmeans, ha, hstatic⟩
    rw [hscale] at hmeans
    obtain ⟨epilogue, hepilogue⟩ := h.epilogue
    refine ⟨_, h.decode_ok.mpr ⟨precision, activation, epilogue, hmeans, ha, hepilogue, rfl⟩,
      (h.validates hmeans).mpr fun hdims hparams => ?_⟩
    exact hstatic (hnothing.1.mpr hdims) (hnothing.2.mpr hparams)
  · intro executable hdecode
    obtain ⟨precision, activation, epilogue, -, -, -, rfl⟩ := h.decode_ok.mp hdecode
    simp only [runtimeConstantCount, runtimeDimensionCount, runtimeQuantizationCount, denseReaderCount,
      declaresTrailing, h.dimensions, h.quantization, List.length_map]
    exact congrArg (dims.length + params.length + ·) (trailingCount_eq _ _)

theorem MatmulWritten.loadsAs {t : MatmulDef} {dims : List RuntimeMatmulDimension}
    (h : MatmulWritten t dims) : LoadsAs (.matmul t) := by
  have hnothing : t.runtimeDimensions = [] ↔ dims = [] := by
    rw [h.dimensions]
    exact List.map_eq_nil_iff
  refine .of_decoded rfl ⟨?_, ?_⟩ ?_
  · rintro ⟨_, hdecode, hvalid⟩
    obtain ⟨precision, activation, hmeans, ha, rfl⟩ := h.decode_ok.mp hdecode
    exact ⟨precision, activation, hmeans, ha, fun hdims => h.validates.mp hvalid (hnothing.mp hdims)⟩
  · rintro ⟨precision, activation, hmeans, ha, hstatic⟩
    exact ⟨_, h.decode_ok.mpr ⟨precision, activation, hmeans, ha, rfl⟩,
      h.validates.mpr fun hdims => hstatic (hnothing.mpr hdims)⟩
  · intro executable hdecode
    obtain ⟨precision, activation, -, -, rfl⟩ := h.decode_ok.mp hdecode
    simp only [runtimeConstantCount, runtimeDimensionCount, runtimeQuantizationCount, denseReaderCount,
      declaresTrailing, h.dimensions, List.length_map]
    exact congrArg (dims.length + ·) (trailingCount_eq _ _)

theorem PoolingWritten.loadsAs {t : PoolingDef} {dims : List RuntimePoolingDimension}
    (h : PoolingWritten t dims) : LoadsAs (.pooling t) := by
  have hnothing : t.runtimeDimensions = [] ↔ dims = [] := by
    rw [h.dimensions]
    exact List.map_eq_nil_iff
  refine .of_decoded rfl ⟨?_, ?_⟩ ?_
  · rintro ⟨_, hdecode, hvalid⟩
    obtain ⟨method, precision, padValue, hm, hp, hfill, rfl⟩ := h.decode_ok.mp hdecode
    exact ⟨method, precision, padValue, hm, hp, hfill,
      fun hdims => h.validates.mp hvalid (hnothing.mp hdims)⟩
  · rintro ⟨method, precision, padValue, hm, hp, hfill, hstatic⟩
    exact ⟨_, h.decode_ok.mpr ⟨method, precision, padValue, hm, hp, hfill, rfl⟩,
      h.validates.mpr fun hdims => hstatic (hnothing.mpr hdims)⟩
  · intro executable hdecode
    obtain ⟨method, precision, padValue, -, -, -, rfl⟩ := h.decode_ok.mp hdecode
    simp only [runtimeConstantCount, runtimeDimensionCount, runtimeQuantizationCount, denseReaderCount,
      declaresTrailing, h.dimensions, List.length_map]
    exact congrArg (dims.length + ·) (trailingCount_eq _ _)

/-- A written table loads where the driver admits it. -/
theorem Written.loadsAs {kernel : KernelDef} (h : Written kernel) : LoadsAs kernel := by
  cases kernel with
  | conv2d t =>
    obtain ⟨dims, params, h⟩ := h
    exact h.loadsAs
  | fullyConnected t =>
    have hloads := MatmulWritten.loadsAs h
    unfold LoadsAs at hloads ⊢
    rw [decode_fullyConnected]
    exact hloads
  | matmul t =>
    obtain ⟨dims, h⟩ := h
    exact h.loadsAs
  | pooling t =>
    obtain ⟨dims, h⟩ := h
    exact h.loadsAs
  | elementwiseUnary t =>
    obtain ⟨dims, h⟩ := h
    obtain ⟨algo, halgo, -⟩ := h.op
    refine ⟨iff_of_true ⟨_, h.loads.mpr ⟨algo, halgo, rfl⟩⟩ trivial, fun u hu => ?_⟩
    obtain ⟨_, -, rfl⟩ := h.loads.mp hu
    simp only [runtimeConstantCount, runtimeDimensionCount, runtimeQuantizationCount, denseReaderCount,
      declaresTrailing, h.elementwise.dimensions, List.length_map]
    exact congrArg (dims.length + ·) (trailingCount_eq _ _)
  | elementwiseBinary t =>
    obtain ⟨dims, h⟩ := h
    obtain ⟨op, hop⟩ := h.op
    refine ⟨iff_of_true ⟨_, h.loads.mpr ⟨op, hop, rfl⟩⟩ trivial, fun u hu => ?_⟩
    obtain ⟨_, -, rfl⟩ := h.loads.mp hu
    simp only [runtimeConstantCount, runtimeDimensionCount, runtimeQuantizationCount, denseReaderCount,
      declaresTrailing, h.elementwise.dimensions, List.length_map]
    exact congrArg (dims.length + ·) (trailingCount_eq _ _)
  | elementwiseLut t =>
    obtain ⟨dims, h⟩ := h
    obtain ⟨function, hfn⟩ := h.fn
    refine ⟨⟨fun ⟨u, hu⟩ => (h.loads.mp hu).1, fun hfinite => ?_⟩, fun u hu => ?_⟩
    · exact ⟨_, h.loads.mpr ⟨hfinite, function, hfn, rfl⟩⟩
    · obtain ⟨-, _, -, rfl⟩ := h.loads.mp hu
      simp only [runtimeConstantCount, runtimeDimensionCount, runtimeQuantizationCount, denseReaderCount,
        declaresTrailing, h.elementwise.dimensions, List.length_map]
      exact congrArg (dims.length + ·) (trailingCount_eq _ _)

/-- What the backend builds is written. -/
theorem built_written {config : Option DictionaryAttr} {name : String} {kernel : KernelDef}
    (h : buildKernelFromTarget config name = .ok kernel) : Written kernel := by
  unfold buildKernelFromTarget at h
  split at h <;> obtain ⟨t, ht, rfl⟩ := map_ok.mp h
  · exact fullyConnectedWritten ht
  · obtain ⟨_, dims, -, hwritten, -⟩ := poolingWritten ht
    exact ⟨dims, hwritten⟩
  · obtain ⟨_, dims, -, hwritten, -⟩ := matmulWritten ht
    exact ⟨dims, hwritten⟩
  · obtain ⟨_, dims, -, hwritten, -⟩ := unaryWritten ht
    exact ⟨dims, hwritten⟩
  · obtain ⟨_, dims, -, hwritten, -⟩ := binaryWritten ht
    exact ⟨dims, hwritten⟩
  · obtain ⟨_, dims, -, hwritten, -⟩ := lutWritten ht
    exact ⟨dims, hwritten⟩
  · obtain ⟨_, dims, params, -, hwritten, -⟩ := conv2dWritten ht
    exact ⟨dims, params, hwritten⟩

/-- What a variant that is serialized is made of. -/
theorem serializeExecutable_ok {variant : ExecutableVariant} {executable : ExecutableDef} :
    serializeExecutable variant = .ok executable ↔
      variant.format = "rocket-flatbuffer-v1" ∧
        ∃ name, kernelOf variant.configuration = .ok name ∧ name ∈ supportedKernels ∧
          ∃ kernel, buildKernelFromTarget variant.configuration name = .ok kernel ∧
            ∃ exportOp, variant.exports = [exportOp] ∧ exportOp.ordinal = some 0 ∧
              exportOp.constants = runtimeConstantCount kernel ∧
                executable = ⟨[⟨exportOp.name, kernel⟩]⟩ := by
  unfold serializeExecutable
  simp only [bind_ok, unlessErr_ok, exists_const]
  refine and_congr_right fun _ => exists_congr fun name => and_congr_right fun _ => and_congr_right
    fun _ => exists_congr fun kernel => and_congr_right fun _ => ?_
  split
  · rename_i exportOp hexports
    simp only [bind_ok, unlessErr_ok, exists_const, pure_ok]
    constructor
    · rintro ⟨hordinal, hconstants, rfl⟩
      exact ⟨exportOp, hexports, hordinal, hconstants, rfl⟩
    · rintro ⟨other, hother, hordinal, hconstants, rfl⟩
      cases hexports.symm.trans hother
      exact ⟨hordinal, hconstants, rfl⟩
  · rename_i hexports
    constructor
    · rintro ⟨⟩
    · rintro ⟨exportOp, hsingle, -⟩
      exact absurd hsingle (hexports exportOp)

/-- The kernel of the one export a decoded executable has. -/
def decodeExecutable (executable : ExecutableDef) : Except Unit UkernelShape :=
  match executable.exports with
  | [exportDef] => decodeFlatbufferShape exportDef.kernel
  | _ => .error ()

/-- **What is serialized loads, but for what only the driver can tell.** The executable has one export, of
the variant's name. The driver loads it where its requantization is encoded, its fill known, its scales
finite and its static geometry valid, and it then takes the push constants the pipeline layout declares. -/
theorem serialized_loads_iff {variant : ExecutableVariant} {executable : ExecutableDef}
    (h : serializeExecutable variant = .ok executable) :
    ∃ exportOp kernel, variant.exports = [exportOp] ∧ executable = ⟨[⟨exportOp.name, kernel⟩]⟩ ∧
      ((∃ u, decodeExecutable executable = .ok u) ↔ Admits kernel) ∧
        ∀ u, decodeExecutable executable = .ok u → (u.constantCount : Int) = exportOp.constants := by
  obtain ⟨-, name, -, -, kernel, hbuilt, exportOp, hexports, -, hconstants, rfl⟩ :=
    serializeExecutable_ok.mp h
  obtain ⟨hloads, hcount⟩ := (built_written hbuilt).loadsAs
  refine ⟨exportOp, kernel, hexports, rfl, hloads, fun u hu => ?_⟩
  rw [hconstants, hcount u hu]

/-- A pool of four by four windows over rows of a dispatch's height, at fp16. -/
def rowsPool : ExecutableVariant where
  format := "rocket-flatbuffer-v1"
  configuration := some {
    entries := [("kernel", .read (.string "pooling")), ("input_width", .read (.integer 8)),
      ("input_height", .read (.integer 0)), ("channels", .read (.integer 16)),
      ("output_width", .read (.integer 0)), ("output_height", .read (.integer 0)),
      ("kernel_width", .read (.integer 4)), ("kernel_height", .read (.integer 4)),
      ("stride_x", .read (.integer 4)), ("stride_y", .read (.integer 4)),
      ("pad_left", .read (.integer 0)), ("pad_top", .read (.integer 0)),
      ("pad_right", .read (.integer 0)), ("pad_bottom", .read (.integer 0)),
      ("method", .read (.string "avg")), ("precision", .read (.string "fp16")),
      ("runtime_dimensions", .read (.array [some "input_height"])),
      ("runtime_layout", .read (.bool true))]
    unique := by decide }
  exports := [⟨"pool", some 0, 2⟩]

/-- Its table. -/
def rowsPoolTable : PoolingDef where
  inputWidth := 8
  inputHeight := 0
  channels := 16
  outputWidth := 0
  outputHeight := 0
  kernelWidth := 4
  kernelHeight := 4
  strideX := 4
  strideY := 4
  padLeft := 0
  padTop := 0
  padRight := 0
  padBottom := 0
  method := .avg
  precision := .fp16
  runtimeDimensions := [.inputHeight]
  runtimeDenseReaders := false
  runtimeLayout := true

theorem serialized_loads_rows :
    serializeExecutable rowsPool = .ok ⟨[⟨"pool", .pooling rowsPoolTable⟩]⟩ ∧
      ∃ u, decodeExecutable ⟨[⟨"pool", .pooling rowsPoolTable⟩]⟩ = .ok u ∧ u.constantCount = 2 := by
  have hserialized : serializeExecutable rowsPool = .ok ⟨[⟨"pool", .pooling rowsPoolTable⟩]⟩ := by rfl
  obtain ⟨exportOp, kernel, hexports, hexecutable, hloads, hcount⟩ := serialized_loads_iff hserialized
  cases hexports
  cases hexecutable
  have hadmits : Admits (.pooling rowsPoolTable) :=
    ⟨.avg, .fp16, 0, rfl, rfl, rfl, fun hnone => absurd hnone (List.cons_ne_nil _ _)⟩
  obtain ⟨u, hu⟩ := hloads.mpr hadmits
  exact ⟨hserialized, u, hu, Int.ofNat_inj.mp (hcount u hu)⟩

end IreeRocket.Backend
