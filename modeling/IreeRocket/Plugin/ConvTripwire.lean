import IreeRocket.Core.Error
import Mathlib.Data.List.GetD

/-!
# The tripwire around the demotion

`rocket-record-conv-attrs` stamps every named convolution and contraction with the attributes that
say which op it is, and `rocket-verify-conv-shapes` compares them, by effective value, with those of
the op it has been rebuilt to. Absent steps are all ones and an absent cast is `cast_signed`.

The comparison of steps and maps looks at both sides. That of the cast starts from a recorded one:
an op recorded without a cast is not compared, so a rebuild that makes it `cast_unsigned` passes.
`tripwire_precise_iff` says that this is the only way to pass with another definition.
-/

namespace IreeRocket.Plugin.Tripwire

/-- `linalg::TypeFn`. -/
inductive TypeFn
  | castSigned
  | castUnsigned
  deriving DecidableEq, Repr

/-- An attribute, as far as the two passes tell attributes apart; `Map` is an affine map. -/
inductive Attribute (Map : Type)
  | denseIntElements (values : List Int)
  | denseI64Array (values : List Int)
  | typeFn (fn : TypeFn)
  | array (maps : List Map)
  | other (text : String)

variable {Map : Type}

/-- A `DictionaryAttr`. -/
abbrev Dictionary (Map : Type) := List (String × Attribute Map)

def stridesAttrName : String := "strides"
def dilationsAttrName : String := "dilations"
def indexingMapsAttrName : String := "indexing_maps"
def castAttrName : String := "cast"
def recordAttrName : String := "rocket.recorded_attrs"

/-- The linalg op an operation is; the four layouts the spatial check knows are spelled out. -/
inductive NamedOp
  | conv2DNchwFchw
  | conv2DNhwcHwcf
  | depthwiseConv2DNhwcHwc
  | depthwiseConv2DNchwChw
  | other (name : String) (tracked : Bool)
  deriving DecidableEq, Repr

def NamedOp.name : NamedOp → String
  | .conv2DNchwFchw => "linalg.conv_2d_nchw_fchw"
  | .conv2DNhwcHwcf => "linalg.conv_2d_nhwc_hwcf"
  | .depthwiseConv2DNhwcHwc => "linalg.depthwise_conv_2d_nhwc_hwc"
  | .depthwiseConv2DNchwChw => "linalg.depthwise_conv_2d_nchw_chw"
  | .other name _ => name

/-- `isTrackedOp`: the op is a named convolution or contraction. -/
def NamedOp.isTracked : NamedOp → Bool
  | .other _ tracked => tracked
  | _ => true

/-- The extents of a `RankedTensorType`; `none` is a dynamic extent. -/
abbrev Extents := List (Option Int)

/-- A `LinalgOp`. `attrs` are its inherent attributes, `record` is the discardable
`rocket.recorded_attrs`, `indexingMaps` is what `getIndexingMaps()` returns, and an operand type is
`none` where it is not a ranked tensor. -/
structure LinalgOp (Map : Type) where
  op : NamedOp
  attrs : Dictionary Map
  record : Option (Dictionary Map)
  indexingMaps : List Map
  input : Option Extents
  filter : Option Extents
  output : Option Extents

def LinalgOp.getAttr (op : LinalgOp Map) (name : String) : Option (Attribute Map) :=
  op.attrs.lookup name

/-- `readSteps`: both spellings of a list of steps, empty when absent. -/
def readSteps : Option (Attribute Map) → List Int
  | some (.denseIntElements values) => values
  | some (.denseI64Array values) => values
  | _ => []

/-- `stepsAgree`. -/
def stepsAgree (a b : List Int) : Bool :=
  if a.length = b.length then a = b
  else
    let present := if a.isEmpty then b else a
    let absent := if a.isEmpty then a else b
    absent.isEmpty && present.all (· = 1)

def stepsToString (steps : List Int) : String :=
  if steps.isEmpty then "absent (all 1)"
  else "[" ++ ", ".intercalate (steps.map toString) ++ "]"

def effectiveCast : Option (Attribute Map) → TypeFn
  | some (.typeFn fn) => fn
  | _ => .castSigned

def TypeFn.toString : TypeFn → String
  | .castSigned => "#linalg.type_fn<cast_signed>"
  | .castUnsigned => "#linalg.type_fn<cast_unsigned>"

/-- `getStepAttr`: one step, `1` when absent. -/
def LinalgOp.getStepAttr (op : LinalgOp Map) (name : String) (index : Nat) : Int :=
  match op.getAttr name with
  | some (.denseIntElements values) => values.getD index 1
  | _ => 1

/-! ### Recording -/

/-- The entry of one list of steps, if there are any. -/
def stepsRecord (op : LinalgOp Map) (name : String) : Dictionary Map :=
  let steps := readSteps (op.getAttr name)
  if steps.isEmpty then [] else [(name, .denseI64Array steps)]

/-- The entry of an explicit cast. -/
def castRecord (op : LinalgOp Map) : Dictionary Map :=
  match op.getAttr castAttrName with
  | some cast => [(castAttrName, cast)]
  | none => []

/-- The record of an op. -/
def recordOf (op : LinalgOp Map) : Dictionary Map :=
  stepsRecord op stridesAttrName ++ stepsRecord op dilationsAttrName ++
    [(indexingMapsAttrName, .array op.indexingMaps)] ++ castRecord op

/-- What the recording pass does to one op. -/
def recordOp (op : LinalgOp Map) : LinalgOp Map :=
  if op.op.isTracked then { op with record := some (recordOf op) } else op

/-- The op the passes run on, with the linalg ops under it in the order of the walk. `marked` is
`rocket.conv_attrs_recorded`. -/
structure Root (Map : Type) where
  marked : Bool
  ops : List (LinalgOp Map)

/-- `RocketRecordConvAttrsPass::runOnOperation`. -/
def recordPass (root : Root Map) : Root Map :=
  { marked := true, ops := root.ops.map recordOp }

/-! ### Verifying -/

section Verify

variable [DecidableEq Map] (printMaps : List Map → String)

def changed (op : LinalgOp Map) (name recorded current : String) : String :=
  s!"rocket-verify-conv-shapes: {op.op.name} '{name}' changed since rocket-record-conv-attrs: " ++
    s!"recorded {recorded}, now {current}. An earlier pass has rebuilt this op without carrying " ++
    s!"'{name}' over (linalg::getPrunedAttributeList elides it)"

/-- One turn of the loop over `strides` and `dilations`. -/
def verifySteps (op : LinalgOp Map) (record : Dictionary Map) (name : String) :
    Except String Unit :=
  let recordedAttr := record.lookup name
  let currentAttr := op.getAttr name
  if recordedAttr.isNone ∧ currentAttr.isNone then .ok ()
  else
    unlessErr (stepsAgree (readSteps recordedAttr) (readSteps currentAttr))
      (changed op name (stepsToString (readSteps recordedAttr))
        (stepsToString (readSteps currentAttr)))

def verifyMaps (op : LinalgOp Map) (record : Dictionary Map) : Except String Unit :=
  match record.lookup indexingMapsAttrName with
  | some (.array recorded) =>
    unlessErr (recorded = op.indexingMaps)
      (changed op indexingMapsAttrName (printMaps recorded) (printMaps op.indexingMaps))
  | _ => .ok ()

/-- The comparison of the casts, made only where one was recorded. -/
def verifyCast (op : LinalgOp Map) (record : Dictionary Map) : Except String Unit :=
  match record.lookup castAttrName with
  | some recordedAttr =>
    let recorded := effectiveCast (some recordedAttr)
    let current := effectiveCast (op.getAttr castAttrName)
    unlessErr (recorded = current) (changed op castAttrName recorded.toString current.toString)
  | none => .ok ()

def verifyRecord (op : LinalgOp Map) (record : Dictionary Map) : Except String Unit := do
  verifySteps op record stridesAttrName
  verifySteps op record dilationsAttrName
  verifyMaps printMaps op record
  verifyCast op record

/-- `ConvSpatialDims`: the dimensions that carry the two spatial extents. -/
structure ConvSpatialDims where
  input : Nat × Nat
  filter : Nat × Nat
  output : Nat × Nat

def getSpatialDims : NamedOp → Option ConvSpatialDims
  | .conv2DNchwFchw => some ⟨(2, 3), (2, 3), (2, 3)⟩
  | .conv2DNhwcHwcf => some ⟨(1, 2), (0, 1), (1, 2)⟩
  | .depthwiseConv2DNhwcHwc => some ⟨(1, 2), (0, 1), (1, 2)⟩
  | .depthwiseConv2DNchwChw => some ⟨(2, 3), (1, 2), (2, 3)⟩
  | .other _ _ => none

/-- One turn of the arithmetic check: the axis has the given dimension in each operand. -/
def verifyExtent (op : LinalgOp Map) (types : Extents × Extents × Extents) (axis : Nat)
    (dims : Nat × Nat × Nat) : Except String Unit :=
  match types.1.getD dims.1 none, types.2.1.getD dims.2.1 none, types.2.2.getD dims.2.2 none with
  | some input, some filter, some output =>
    let stride := op.getStepAttr stridesAttrName axis
    let dilation := op.getStepAttr dilationsAttrName axis
    if stride ≤ 0 ∨ dilation ≤ 0 then .ok ()
    else
      let expected := (input - dilation * (filter - 1) - 1).tdiv stride + 1
      unlessErr (output = expected)
        (s!"rocket-verify-conv-shapes: {op.op.name} output extent {output} on spatial axis {axis} " ++
          s!"disagrees with its operands: input {input}, filter {filter}, stride {stride}, " ++
          s!"dilation {dilation} imply {expected}. An earlier pass has rewritten this " ++
          "convolution into a different one -- check whether it dropped 'strides' or 'dilations'")
  | _, _, _ => .ok ()

def verifyExtents (op : LinalgOp Map) : Except String Unit :=
  match getSpatialDims op.op, op.input, op.filter, op.output with
  | some dims, some input, some filter, some output => do
    verifyExtent op (input, filter, output) 0 (dims.input.1, dims.filter.1, dims.output.1)
    verifyExtent op (input, filter, output) 1 (dims.input.2, dims.filter.2, dims.output.2)
  | _, _, _, _ => .ok ()

/-- The part of the walk's callback that checks the record. -/
def verifyRecorded (marked : Bool) (op : LinalgOp Map) : Except String Unit :=
  match op.record with
  | some record => verifyRecord printMaps op record
  | none =>
    unlessErr (¬ (marked ∧ op.op.isTracked))
      (s!"rocket-verify-conv-shapes: {op.op.name} carries no '{recordAttrName}'. A pass between " ++
        "rocket-record-conv-attrs and this one rebuilt it without carrying its discardable " ++
        "attributes over, so its shape-defining attributes cannot be checked")

def verifyOp (marked : Bool) (op : LinalgOp Map) : Except String Unit := do
  verifyRecorded printMaps marked op
  verifyExtents op

/-- The walk: every op it reaches loses its record, and the first error interrupts it. -/
def verifyWalk (marked : Bool) : List (LinalgOp Map) → List (LinalgOp Map) × Option String
  | [] => ([], none)
  | op :: ops =>
    match verifyOp printMaps marked op with
    | .ok () =>
      let rest := verifyWalk marked ops
      ({ op with record := none } :: rest.1, rest.2)
    | .error message => ({ op with record := none } :: ops, some message)

/-- `RocketVerifyConvShapesPass::runOnOperation`, with the error it emits if it fails. -/
def verifyPass (root : Root Map) : Root Map × Option String :=
  let walk := verifyWalk printMaps root.marked root.ops
  ({ marked := false, ops := walk.1 }, walk.2)

end Verify

/-! ### What the record says of the op -/

section Recorded

variable {op : LinalgOp Map} {name other : String}

theorem lookup_single_ne (attr : Attribute Map) (h : other ≠ name) :
    List.lookup other [(name, attr)] = none := by
  rw [List.lookup_eq_none_iff]
  intro entry hentry
  rw [List.mem_singleton.mp hentry]
  exact bne_iff_ne.mpr h

theorem lookup_stepsRecord_ne (h : other ≠ name) : (stepsRecord op name).lookup other = none := by
  unfold stepsRecord
  dsimp only
  split_ifs
  · rfl
  · exact lookup_single_ne _ h

theorem readSteps_lookup_stepsRecord :
    readSteps ((stepsRecord op name).lookup name) = readSteps (op.getAttr name) := by
  unfold stepsRecord
  dsimp only
  split_ifs with hempty
  · exact (List.isEmpty_iff.mp hempty).symm
  · rw [List.lookup_cons_self]
    rfl

theorem lookup_castRecord_ne (h : other ≠ castAttrName) : (castRecord op).lookup other = none := by
  unfold castRecord
  split
  · exact lookup_single_ne _ h
  · rfl

theorem lookup_castRecord : (castRecord op).lookup castAttrName = op.getAttr castAttrName := by
  unfold castRecord
  split
  next cast hcast => rw [List.lookup_cons_self, hcast]
  next hnone => rw [hnone]; rfl

theorem lookup_recordOf : (recordOf op).lookup name =
    ((((stepsRecord op stridesAttrName).lookup name).or
      ((stepsRecord op dilationsAttrName).lookup name)).or
      ([(indexingMapsAttrName, .array op.indexingMaps)].lookup name)).or
      ((castRecord op).lookup name) := by
  unfold recordOf
  rw [List.lookup_append, List.lookup_append, List.lookup_append]

theorem readSteps_recordOf (hname : name = stridesAttrName ∨ name = dilationsAttrName) :
    readSteps ((recordOf op).lookup name) = readSteps (op.getAttr name) := by
  have hmaps : name ≠ indexingMapsAttrName := by rcases hname with rfl | rfl <;> decide
  have hcast : name ≠ castAttrName := by rcases hname with rfl | rfl <;> decide
  rw [lookup_recordOf, lookup_castRecord_ne hcast, Option.or_none,
    lookup_single_ne _ hmaps, Option.or_none]
  rcases hname with rfl | rfl
  · rw [lookup_stepsRecord_ne (show stridesAttrName ≠ dilationsAttrName by decide), Option.or_none,
      readSteps_lookup_stepsRecord]
  · rw [lookup_stepsRecord_ne (by decide), Option.none_or, readSteps_lookup_stepsRecord]

theorem lookup_recordOf_maps :
    (recordOf op).lookup indexingMapsAttrName = some (.array op.indexingMaps) := by
  rw [lookup_recordOf, lookup_stepsRecord_ne (by decide), lookup_stepsRecord_ne (by decide),
    List.lookup_cons_self]
  rfl

theorem lookup_recordOf_cast :
    (recordOf op).lookup castAttrName = op.getAttr castAttrName := by
  rw [lookup_recordOf, lookup_stepsRecord_ne (by decide), lookup_stepsRecord_ne (by decide),
    lookup_castRecord, lookup_single_ne _ (by decide)]
  rfl

end Recorded

/-! ### What each comparison decides -/

/-- Lists of one length, or one of them absent, agree where their effective values do. -/
theorem stepsAgree_iff {a b : List Int} (h : a ≠ [] → b ≠ [] → a.length = b.length) :
    stepsAgree a b = true ↔ ∀ index, a.getD index 1 = b.getD index 1 := by
  have hones : ∀ steps : List Int,
      steps.all (· = 1) = true ↔ ∀ index, steps.getD index 1 = 1 := by
    intro steps
    rw [List.all_eq_true]
    constructor
    · intro hall index
      rcases lt_or_ge index steps.length with hlt | hge
      · rw [List.getD_eq_getElem _ _ hlt]
        exact of_decide_eq_true (hall _ (List.getElem_mem hlt))
      · exact List.getD_eq_default _ _ hge
    · intro hget step hstep
      obtain ⟨index, hlt, rfl⟩ := List.getElem_of_mem hstep
      rw [← List.getD_eq_getElem _ 1 hlt]
      exact decide_eq_true (hget index)
  unfold stepsAgree
  by_cases hlength : a.length = b.length
  · rw [if_pos hlength, decide_eq_true_eq]
    constructor
    · intro hab index
      rw [hab]
    · intro hget
      apply List.ext_getElem hlength
      intro index ha hb
      rw [← List.getD_eq_getElem _ 1 ha, ← List.getD_eq_getElem _ 1 hb]
      exact hget index
  · rw [if_neg hlength]
    -- the lengths differ, so one of the two is absent
    rcases a with _ | ⟨step, a⟩
    · simp only [List.isEmpty_nil, if_true, Bool.true_and, hones, List.getD_nil]
      exact forall_congr' fun _ => eq_comm
    · rcases b with _ | ⟨other, b⟩
      · simp only [List.isEmpty_cons, List.isEmpty_nil, Bool.false_eq_true, if_false, Bool.true_and,
          hones, List.getD_nil]
      · exact absurd (h (List.cons_ne_nil _ _) (List.cons_ne_nil _ _)) hlength

theorem verifySteps_ok {op : LinalgOp Map} {record : Dictionary Map} {name : String} :
    verifySteps op record name = .ok () ↔
      stepsAgree (readSteps (record.lookup name)) (readSteps (op.getAttr name)) = true := by
  unfold verifySteps
  dsimp only
  split_ifs with habsent
  · obtain ⟨hrecorded, hcurrent⟩ := habsent
    rw [Option.isNone_iff_eq_none] at hrecorded hcurrent
    rw [hrecorded, hcurrent]
    exact iff_of_true rfl rfl
  · exact unlessErr_ok

section Comparisons

variable [DecidableEq Map] {printMaps : List Map → String} {op rebuilt : LinalgOp Map}

theorem verifyMaps_ok :
    verifyMaps printMaps rebuilt (recordOf op) = .ok () ↔
      op.indexingMaps = rebuilt.indexingMaps := by
  unfold verifyMaps
  rw [lookup_recordOf_maps]
  exact unlessErr_ok

omit [DecidableEq Map] in
theorem verifyCast_ok :
    verifyCast rebuilt (recordOf op) = .ok () ↔
      op.getAttr castAttrName = none ∨
        effectiveCast (op.getAttr castAttrName) = effectiveCast (rebuilt.getAttr castAttrName) := by
  unfold verifyCast
  rw [lookup_recordOf_cast]
  cases op.getAttr castAttrName with
  | none => exact iff_of_true rfl (.inl rfl)
  | some cast =>
    dsimp only
    rw [unlessErr_ok]
    exact (or_iff_right (Option.some_ne_none cast)).symm

theorem verifyRecord_ok :
    verifyRecord printMaps rebuilt (recordOf op) = .ok () ↔
      stepsAgree (readSteps (op.getAttr stridesAttrName))
          (readSteps (rebuilt.getAttr stridesAttrName)) = true ∧
        stepsAgree (readSteps (op.getAttr dilationsAttrName))
          (readSteps (rebuilt.getAttr dilationsAttrName)) = true ∧
        op.indexingMaps = rebuilt.indexingMaps ∧
        (op.getAttr castAttrName = none ∨
          effectiveCast (op.getAttr castAttrName) =
            effectiveCast (rebuilt.getAttr castAttrName)) := by
  unfold verifyRecord
  rw [bind_unit_ok, bind_unit_ok, bind_unit_ok, verifySteps_ok, verifySteps_ok, verifyMaps_ok,
    verifyCast_ok, readSteps_recordOf (.inl rfl), readSteps_recordOf (.inr rfl)]

end Comparisons

/-! ### Complete and precise, casts apart -/

/-- What MLIR's verifier promises of an op: its steps are spelt as elements, one for each of the
spatial dimensions that its indexing maps have. -/
def Verified (spatialRank : List Map → Nat) (op : LinalgOp Map) : Prop :=
  ∀ name, name = stridesAttrName ∨ name = dilationsAttrName → ∀ attr, op.getAttr name = some attr →
    ∃ values, attr = .denseIntElements values ∧ values.length = spatialRank op.indexingMaps

/-- The two ops step through the same elements. -/
structure SameLoops (op rebuilt : LinalgOp Map) : Prop where
  strides : ∀ index, op.getStepAttr stridesAttrName index =
    rebuilt.getStepAttr stridesAttrName index
  dilations : ∀ index, op.getStepAttr dilationsAttrName index =
    rebuilt.getStepAttr dilationsAttrName index
  indexingMaps : op.indexingMaps = rebuilt.indexingMaps

/-- The two ops are the same by effective strides, dilations, indexing maps and cast. -/
structure SameDefinition (op rebuilt : LinalgOp Map) : Prop extends SameLoops op rebuilt where
  cast : effectiveCast (op.getAttr castAttrName) = effectiveCast (rebuilt.getAttr castAttrName)

/-- The rebuilt op got an unsigned cast and had none before. -/
def UnsignedAdded (op rebuilt : LinalgOp Map) : Prop :=
  op.getAttr castAttrName = none ∧
    effectiveCast (rebuilt.getAttr castAttrName) = .castUnsigned

theorem Verified.getStepAttr_eq {spatialRank : List Map → Nat} {op : LinalgOp Map} {name : String}
    (h : Verified spatialRank op) (hname : name = stridesAttrName ∨ name = dilationsAttrName)
    (index : Nat) : op.getStepAttr name index = (readSteps (op.getAttr name)).getD index 1 := by
  unfold LinalgOp.getStepAttr
  cases hattr : op.getAttr name with
  | none => rfl
  | some attr =>
    obtain ⟨values, rfl, -⟩ := h name hname attr hattr
    rfl

theorem Verified.length_readSteps {spatialRank : List Map → Nat} {op : LinalgOp Map} {name : String}
    (h : Verified spatialRank op) (hname : name = stridesAttrName ∨ name = dilationsAttrName)
    (hne : readSteps (op.getAttr name) ≠ []) :
    (readSteps (op.getAttr name)).length = spatialRank op.indexingMaps := by
  cases hattr : op.getAttr name with
  | none => rw [hattr] at hne; exact absurd rfl hne
  | some attr =>
    obtain ⟨values, rfl, hlength⟩ := h name hname attr hattr
    exact hlength

/-- Under the same maps, the steps of two ops agree where their effective values do. -/
theorem Verified.stepsAgree_iff {spatialRank : List Map → Nat} {op rebuilt : LinalgOp Map}
    {name : String} (h : Verified spatialRank op) (hrebuilt : Verified spatialRank rebuilt)
    (hmaps : op.indexingMaps = rebuilt.indexingMaps)
    (hname : name = stridesAttrName ∨ name = dilationsAttrName) :
    stepsAgree (readSteps (op.getAttr name)) (readSteps (rebuilt.getAttr name)) = true ↔
      ∀ index, op.getStepAttr name index = rebuilt.getStepAttr name index := by
  have hlength : readSteps (op.getAttr name) ≠ [] → readSteps (rebuilt.getAttr name) ≠ [] →
      (readSteps (op.getAttr name)).length = (readSteps (rebuilt.getAttr name)).length := by
    intro hop hop'
    rw [h.length_readSteps hname hop, hrebuilt.length_readSteps hname hop', hmaps]
  rw [Tripwire.stepsAgree_iff hlength]
  apply forall_congr'
  intro index
  rw [h.getStepAttr_eq hname, hrebuilt.getStepAttr_eq hname]

section Precise

variable [DecidableEq Map] {printMaps : List Map → String} {spatialRank : List Map → Nat}
  {op rebuilt : LinalgOp Map}

/-- The record verifies exactly where the loops are the same, and the cast is unless none was
recorded. -/
theorem verifyRecord_iff (h : Verified spatialRank op) (hrebuilt : Verified spatialRank rebuilt) :
    verifyRecord printMaps rebuilt (recordOf op) = .ok () ↔
      SameLoops op rebuilt ∧ (op.getAttr castAttrName = none ∨
        effectiveCast (op.getAttr castAttrName) =
          effectiveCast (rebuilt.getAttr castAttrName)) := by
  rw [verifyRecord_ok]
  constructor
  · rintro ⟨hstrides, hdilations, hmaps, hcast⟩
    refine ⟨⟨?_, ?_, hmaps⟩, hcast⟩
    · exact (h.stepsAgree_iff hrebuilt hmaps (.inl rfl)).mp hstrides
    · exact (h.stepsAgree_iff hrebuilt hmaps (.inr rfl)).mp hdilations
  · rintro ⟨⟨hstrides, hdilations, hmaps⟩, hcast⟩
    refine ⟨?_, ?_, hmaps, hcast⟩
    · exact (h.stepsAgree_iff hrebuilt hmaps (.inl rfl)).mpr hstrides
    · exact (h.stepsAgree_iff hrebuilt hmaps (.inr rfl)).mpr hdilations

end Precise

/-- The walk of the verifying pass checks the record that the recording pass left on the op. -/
theorem verifyRecorded_record [DecidableEq Map] {printMaps : List Map → String}
    {op rebuilt : LinalgOp Map} (htracked : op.op.isTracked)
    (hkept : rebuilt.record = (recordOp op).record) (marked : Bool) :
    verifyRecorded printMaps marked rebuilt = verifyRecord printMaps rebuilt (recordOf op) := by
  unfold verifyRecorded
  rw [hkept, recordOp, if_pos htracked]

/-- The pass succeeds where every op's record and extents verify. -/
theorem verifyPass_none [DecidableEq Map] {printMaps : List Map → String} (root : Root Map) :
    (verifyPass printMaps root).2 = none ↔
      ∀ op ∈ root.ops, verifyRecorded printMaps root.marked op = .ok () ∧
        verifyExtents op = .ok () := by
  have hwalk : ∀ ops, (verifyWalk printMaps root.marked ops).2 = none ↔
      ∀ op ∈ ops, verifyOp printMaps root.marked op = .ok () := by
    intro ops
    induction ops with
    | nil => exact iff_of_true rfl (List.forall_mem_nil _)
    | cons op ops ih =>
      rw [verifyWalk, List.forall_mem_cons]
      split
      next hop => exact ih.trans (and_iff_right hop).symm
      next message hop =>
        refine iff_of_false (Option.some_ne_none _) ?_
        rintro ⟨hok, -⟩
        rw [hok] at hop
        cases hop
  unfold verifyPass
  rw [hwalk]
  apply forall₂_congr
  intro op _
  unfold verifyOp
  exact bind_unit_ok

/-- What becomes of an op of the recorded module: a rewrite in between keeps its discardable attributes,
and whether it is tracked. -/
structure Rebuilt (spatialRank : List Map → Nat) (op rebuilt : LinalgOp Map) : Prop where
  kept : rebuilt.record = (recordOp op).record
  tracked : rebuilt.op.isTracked = op.op.isTracked
  unrecorded : op.op.isTracked = false → op.record = none
  recorded : Verified spatialRank op
  verified : Verified spatialRank rebuilt

theorem Rebuilt.verifyRecorded_ok [DecidableEq Map] {printMaps : List Map → String}
    {spatialRank : List Map → Nat} {op rebuilt : LinalgOp Map} (h : Rebuilt spatialRank op rebuilt)
    (marked : Bool) : verifyRecorded printMaps marked rebuilt = .ok () ↔
      (op.op.isTracked → SameLoops op rebuilt ∧ (op.getAttr castAttrName = none ∨
        effectiveCast (op.getAttr castAttrName) =
          effectiveCast (rebuilt.getAttr castAttrName))) := by
  by_cases htracked : op.op.isTracked = true
  · rw [verifyRecorded_record htracked h.kept, verifyRecord_iff h.recorded h.verified]
    exact ⟨fun hsame _ => hsame, fun hsame => hsame htracked⟩
  · have hkept := h.kept
    rw [recordOp, if_neg htracked, h.unrecorded (Bool.eq_false_iff.mpr htracked)] at hkept
    unfold verifyRecorded
    rw [hkept]
    refine iff_of_true (unlessErr_ok.mpr ?_) fun hop => absurd hop htracked
    rw [h.tracked]
    exact fun hmarked => htracked hmarked.2

/-- **What the two passes decide between them.** The second one succeeds where every tracked op steps
through the elements it stepped through at recording, under the cast it had if it had one, and where the
extents of every op agree with its operands'. -/
theorem verifyPass_recorded [DecidableEq Map] {printMaps : List Map → String}
    {spatialRank : List Map → Nat} (root : Root Map) (ops : List (LinalgOp Map))
    (h : List.Forall₂ (Rebuilt spatialRank) root.ops ops) :
    (verifyPass printMaps { recordPass root with ops := ops }).2 = none ↔
      List.Forall₂ (fun op rebuilt => (op.op.isTracked → SameLoops op rebuilt ∧
        (op.getAttr castAttrName = none ∨ effectiveCast (op.getAttr castAttrName) =
          effectiveCast (rebuilt.getAttr castAttrName))) ∧ verifyExtents rebuilt = .ok ())
        root.ops ops := by
  rw [verifyPass_none]
  dsimp only
  generalize root.ops = recorded at h
  induction h with
  | nil => exact iff_of_true (List.forall_mem_nil _) .nil
  | cons hop _ ih =>
    rw [List.forall_mem_cons, List.forall₂_cons, hop.verifyRecorded_ok, ih]

/-- **The record verifies exactly for the same op, unless an unsigned cast was added to one recorded
without a cast.** The pass then misses it, if nothing else changed. -/
theorem tripwire_precise_iff [DecidableEq Map] (printMaps : List Map → String)
    (spatialRank : List Map → Nat) (op rebuilt : LinalgOp Map) (marked : Bool)
    (htracked : op.op.isTracked) (hkept : rebuilt.record = (recordOp op).record)
    (hop : Verified spatialRank op) (hrebuilt : Verified spatialRank rebuilt) :
    (verifyRecorded printMaps marked rebuilt = .ok () ↔ SameDefinition op rebuilt) ↔
      ¬ (UnsignedAdded op rebuilt ∧ SameLoops op rebuilt) := by
  rw [verifyRecorded_record htracked hkept, verifyRecord_iff hop hrebuilt]
  constructor
  · rintro hiff ⟨⟨hnone, hunsigned⟩, hloops⟩
    have hcast := (hiff.mp ⟨hloops, .inl hnone⟩).cast
    rw [hnone, hunsigned] at hcast
    cases hcast
  · intro hadded
    constructor
    · rintro ⟨hloops, hnone | hcast⟩
      · refine ⟨hloops, ?_⟩
        rw [hnone]
        -- signed after the rebuild too, since nothing unsigned was added
        cases hafter : effectiveCast (rebuilt.getAttr castAttrName) with
        | castSigned => rfl
        | castUnsigned => exact absurd ⟨⟨hnone, hafter⟩, hloops⟩ hadded
      · exact ⟨hloops, hcast⟩
    · intro hsame
      exact ⟨hsame.toSameLoops, .inr hsame.cast⟩

/-- The rewrites that keep discardable attributes: the rebuilt op carries the record of `op`. -/
def carryRecord (op rebuilt : LinalgOp Map) : LinalgOp Map :=
  { rebuilt with record := (recordOp op).record }

/-- A convolution whose maps list, for each result, its loops with their factors. -/
def strided (stride : Int) (attrs : Dictionary (List (List (Nat × Int)))) :
    LinalgOp (List (List (Nat × Int))) where
  op := .conv2DNhwcHwcf
  attrs := attrs
  record := none
  indexingMaps :=
    [[[(0, 1)], [(1, stride), (4, 1)], [(2, stride), (5, 1)], [(6, 1)]],
      [[(4, 1)], [(5, 1)], [(6, 1)], [(3, 1)]], [[(0, 1)], [(1, 1)], [(2, 1)], [(3, 1)]]]
  input := none
  filter := none
  output := none

/-- A stride-2 convolution that loses its strides, with one spatial dimension for each sum. -/
theorem tripwire_precise_lost_strides :
    (verifyRecorded (fun _ => "") true
        (carryRecord (strided 2 [(stridesAttrName, .denseIntElements [2, 2])]) (strided 1 []))
          = .ok () ↔
      SameDefinition (strided 2 [(stridesAttrName, .denseIntElements [2, 2])])
        (carryRecord (strided 2 [(stridesAttrName, .denseIntElements [2, 2])]) (strided 1 []))) ↔
      ¬ (UnsignedAdded (strided 2 [(stridesAttrName, .denseIntElements [2, 2])])
          (carryRecord (strided 2 [(stridesAttrName, .denseIntElements [2, 2])]) (strided 1 [])) ∧
        SameLoops (strided 2 [(stridesAttrName, .denseIntElements [2, 2])])
          (carryRecord (strided 2 [(stridesAttrName, .denseIntElements [2, 2])]) (strided 1 []))) := by
  apply tripwire_precise_iff (fun _ => "") fun maps => (maps.headD []).countP (·.length = 2)
  · rfl
  · rfl
  · rintro name (rfl | rfl) attr hattr
    · cases hattr
      exact ⟨[2, 2], rfl, rfl⟩
    · cases hattr
  · rintro name (rfl | rfl) attr hattr <;> cases hattr

/-- A matmul by maps that list their loops, with at most one cast. -/
def matmul (cast : List TypeFn) : LinalgOp (List Nat) where
  op := .other "linalg.matmul" true
  attrs := cast.map fun fn => (castAttrName, .typeFn fn)
  record := none
  indexingMaps := [[0, 2], [2, 1], [0, 1]]
  input := none
  filter := none
  output := none

/-- **A matmul rebuilt as an unsigned one passes.** -/
theorem unsigned_matmul_passes :
    ¬ (verifyRecorded toString true (carryRecord (matmul []) (matmul [.castUnsigned])) = .ok () ↔
      SameDefinition (matmul []) (carryRecord (matmul []) (matmul [.castUnsigned]))) := by
  intro hiff
  have hcast := (hiff.mp rfl).cast
  cases hcast

end IreeRocket.Plugin.Tripwire
