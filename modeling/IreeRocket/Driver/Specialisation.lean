import IreeRocket.Driver.Templates

/-!
# Dynamic executables specialised to a shape

A dynamic executable is a template of a static one: the listed dimensions are zero in its table and come
as push constants. Filling them in must give what the static executable gives (`SameMeaning`).

Kind by kind, a template filled with a table's values means what the table means (`conv2d_accepts` and
its siblings), up to two differences. A matmul or a pool that lists nothing validates its template by
resolving it with no constants, which a declared layout word refuses; and a pool that lists a dimension
does not compare the output extents its table states.
-/

namespace IreeRocket.Driver

open Conv Layout Weights ExecutableFormat
open Schema hiding Activation Precision PoolingMethod EwBinaryOp

/-- An executable is accepted, and a dispatch of it resolves. -/
def Accepts (kernel : KernelDef) (constants : Bytes) (shape : ResolvedShape) : Prop :=
  ∃ ukernel, decodeFlatbufferShape kernel = .ok ukernel ∧ ukernel.resolveShape constants = .ok shape

theorem orUnit_ok {ε α : Type} {x : Except ε α} {a : α} : orUnit x = .ok a ↔ x = .ok a :=
  mapError_ok

/-- Every kind decodes, validates the template and resolves. -/
theorem accepts_iff {E O : Type} {kernel : KernelDef} {constants : Bytes} {shape : ResolvedShape}
    {decode : Except Unit E} {validate : E → Except String Unit} {resolve : E → Except String O}
    {embed : E → UkernelShape} {wrap : E → O → ResolvedShape}
    (hdecode : decodeFlatbufferShape kernel = do
      let executable ← decode
      orUnit (validate executable)
      return embed executable)
    (hresolve : ∀ executable, (embed executable).resolveShape constants = do
      let out ← resolve executable
      return wrap executable out) :
    Accepts kernel constants shape ↔
      ∃ executable, decode = .ok executable ∧ validate executable = .ok () ∧
        ∃ out, resolve executable = .ok out ∧ wrap executable out = shape := by
  unfold Accepts
  rw [hdecode]
  simp only [bind_ok, orUnit_ok, pure_ok]
  constructor
  · rintro ⟨_, ⟨executable, hexecutable, _, hvalidate, rfl⟩, hrun⟩
    rw [hresolve] at hrun
    simp only [bind_ok, pure_ok] at hrun
    exact ⟨executable, hexecutable, hvalidate, hrun⟩
  · rintro ⟨executable, hexecutable, hvalidate, out, hout, hshape⟩
    refine ⟨embed executable, ⟨executable, hexecutable, (), hvalidate, rfl⟩, ?_⟩
    rw [hresolve]
    simp only [bind_ok, pure_ok]
    exact ⟨out, hout, hshape⟩

/-! ### Convolutions -/

/-- The dimensions of a convolution's table. -/
def conv2dFields : Fields Conv2DDef RuntimeConv2dDimension where
  get d t :=
    match d with
    | .inputWidth => t.inputWidth
    | .inputHeight => t.inputHeight
    | .inputChannels => t.inputChannels
    | .outputChannels => t.outputChannels
    | .weightsWidth => t.weightsWidth
    | .weightsHeight => t.weightsHeight
  set d v t :=
    match d with
    | .inputWidth => { t with inputWidth := v }
    | .inputHeight => { t with inputHeight := v }
    | .inputChannels => { t with inputChannels := v }
    | .outputChannels => { t with outputChannels := v }
    | .weightsWidth => { t with weightsWidth := v }
    | .weightsHeight => { t with weightsHeight := v }
  get_set d v t := by cases d <;> rfl
  get_set_ne d d' v t h := by cases d <;> cases d' <;> first | rfl | exact absurd rfl h
  set_get d t := by cases d <;> rfl
  set_set d v w t := by cases d <;> rfl
  set_comm d d' v w t h := by cases d <;> cases d' <;> first | rfl | exact absurd rfl h

def encodeConv2DDimension : RuntimeConv2dDimension → Conv2DDimension
  | .inputWidth => .inputWidth
  | .inputHeight => .inputHeight
  | .inputChannels => .inputChannels
  | .outputChannels => .outputChannels
  | .weightsWidth => .weightsWidth
  | .weightsHeight => .weightsHeight

/-- The table that lists some dimensions, zero in it, and may declare a layout word. -/
def conv2dTemplate (t : Conv2DDef) (dims : List RuntimeConv2dDimension) (layout : Bool) : Conv2DDef :=
  { conv2dFields.blank dims t with
    runtimeDimensions := dims.map encodeConv2DDimension
    runtimeQuantization := []
    runtimeDenseReaders := false
    runtimeLayout := layout }

/-- The shape a table states, its precision and its activation decoded. -/
def conv2dShape (precision : Precision) (activation : Activation) (t : Conv2DDef) : Shape × Kernels :=
  ({ width := t.inputWidth, height := t.inputHeight, stride := t.stride
     inChannels := t.inputChannels, outChannels := t.outputChannels, precision
     padding := some (t.padTop, t.padLeft), activation, depthwise := t.depthwise },
    (t.weightsHeight, t.weightsWidth))

def conv2dTable (precision : Precision) (activation : Activation) :
    TableShape (Shape × Kernels) Conv2DDef RuntimeConv2dDimension where
  fields := conv2dFields
  all := RuntimeConv2dDimension.all
  mem_all d := by cases d <;> decide
  get shape d := RuntimeConv2dDimension.get shape.1 shape.2 d
  set := RuntimeConv2dDimension.set
  shapeOf := conv2dShape precision activation
  get_shapeOf t d := by cases d <;> rfl
  set_shapeOf d v t := by cases d <;> rfl

/-- What a table means as a static executable. -/
def Conv2dMeans (t : Conv2DDef) (out : Shape × Kernels) : Prop :=
  ∃ precision scales activation epilogue,
    decodePrecision t.precision ⟨t.inputZeroPoint, t.outputZeroPoint, t.weightsZeroPoint, t.inputScale,
        t.weightsScale, t.outputScale⟩ false = .ok (precision, scales) ∧
      decodeActivation t.activation t.activationCmp = .ok activation ∧
      decodeEpilogueActivation t.epilogueActivation = .ok epilogue ∧
      (∀ d, conv2dFields.get d t ≠ 0) ∧ conv2dShape precision activation t = out ∧
      validateConvShape out.1 out.2 = .ok ()

/-- Taking the words from the front is the loop over them. -/
theorem resolveDimensions_ok {dims : List RuntimeConv2dDimension} {words rest : List Bytes}
    (h : dims.length ≤ words.length) {shape out : Shape × Kernels} :
    Conv2dExecutable.resolveDimensions dims words shape = .ok (out, rest) ↔
      setDimensions RuntimeConv2dDimension.set "runtime Conv2D dimensions must be nonzero" dims words
        shape = .ok out ∧ words.drop dims.length = rest := by
  induction dims generalizing words shape with
  | nil => simp [Conv2dExecutable.resolveDimensions, setDimensions, pure_ok]
  | cons d dims ih =>
    cases words with
    | nil => cases h
    | cons bytes words =>
      simp only [Conv2dExecutable.resolveDimensions, setDimensions, List.head?_cons, List.tail_cons,
        bind_ok, okOr_ok, unlessErr_ok, exists_const, Option.some.injEq, exists_eq_left',
        ih (Nat.le_of_succ_le_succ h), List.length_cons, List.drop_succ_cons, and_assoc]

section Convolution

variable {t : Conv2DDef} {dims : List RuntimeConv2dDimension}

/-- The executable of a template. -/
def conv2dDynamic (t : Conv2DDef) (dims : List RuntimeConv2dDimension) (layout : Bool)
    (precision : Precision) (scales : Option Scales) (activation epilogue : Activation) :
    Conv2dExecutable where
  shapeTemplate := (conv2dShape precision activation (conv2dFields.blank dims t)).1
  scales := scales
  kernels := (conv2dShape precision activation (conv2dFields.blank dims t)).2
  runtimeDimensions := dims
  runtimeQuantization := []
  epilogueAdd := t.epilogueAdd
  epilogueActivation := epilogue
  runtimeDenseReaders := false
  runtimeLayout := layout
  weightsPacked := t.weightsPacked

theorem decodeConv2d_template {layout : Bool} {executable : Conv2dExecutable} :
    decodeConv2d (conv2dTemplate t dims layout) = .ok executable ↔
      ∃ precision scales activation epilogue,
        decodePrecision t.precision ⟨t.inputZeroPoint, t.outputZeroPoint, t.weightsZeroPoint,
            t.inputScale, t.weightsScale, t.outputScale⟩ false = .ok (precision, scales) ∧
          decodeActivation t.activation t.activationCmp = .ok activation ∧
          decodeEpilogueActivation t.epilogueActivation = .ok epilogue ∧
          conv2dDynamic t dims layout precision scales activation epilogue = executable := by
  have hkept : ∀ {β : Type} (g : Conv2DDef → β), (∀ d v t, g (conv2dFields.set d v t) = g t) →
      g (conv2dFields.blank dims t) = g t := fun g hg => Fields.blank_congr hg t
  have hprecision := hkept (fun t => decodePrecision t.precision ⟨t.inputZeroPoint, t.outputZeroPoint,
    t.weightsZeroPoint, t.inputScale, t.weightsScale, t.outputScale⟩ false)
    (by intro d v t; cases d <;> rfl)
  have hactivation := hkept (fun t => decodeActivation t.activation t.activationCmp)
    (by intro d v t; cases d <;> rfl)
  have hepilogue := hkept (fun t => decodeEpilogueActivation t.epilogueActivation)
    (by intro d v t; cases d <;> rfl)
  have hadd := hkept (fun t => t.epilogueAdd) (by intro d v t; cases d <;> rfl)
  have hpacked := hkept (fun t => t.weightsPacked) (by intro d v t; cases d <;> rfl)
  beta_reduce at hprecision hactivation hepilogue hadd hpacked
  have hdims : (dims.map encodeConv2DDimension).mapM decodeConv2DDimension = .ok dims :=
    mapM_map_ok (fun d => by cases d <;> rfl) dims
  have hnone : ([] : List RuntimeConv2dQuantParam).contains .outputScale = false := rfl
  unfold decodeConv2d conv2dTemplate conv2dDynamic
  simp only [List.mapM_nil, hdims, bind_ok, pure_ok, hnone, Except.ok.injEq, exists_eq_left',
    hprecision, hactivation, hepilogue, hadd, hpacked]
  constructor
  · rintro ⟨⟨precision, scales⟩, hp, activation, ha, epilogue, he, rfl⟩
    exact ⟨precision, scales, activation, epilogue, hp, ha, he, rfl⟩
  · rintro ⟨precision, scales, activation, epilogue, hp, ha, he, rfl⟩
    exact ⟨(precision, scales), hp, activation, ha, epilogue, he, rfl⟩

/-- A template is validated as far as it goes, and whole where it lists nothing. -/
theorem conv2dDynamic_validates (hnodup : dims.Nodup) {layout : Bool} {precision : Precision}
    {scales : Option Scales} {activation epilogue : Activation} :
    (conv2dDynamic t dims layout precision scales activation epilogue).validateTemplate = .ok () ↔
      (∀ d, d ∈ dims ∨ conv2dFields.get d t ≠ 0) ∧
        (dims = [] → validateConvShape (conv2dShape precision activation t).1
          (conv2dShape precision activation t).2 = .ok ()) := by
  unfold Conv2dExecutable.validateTemplate
  simp only [bind_unit_ok]
  apply and_congr ((conv2dTable precision activation).checks hnodup _ _ _)
  by_cases hdims : dims = []
  · subst hdims
    simp [conv2dDynamic, orRefusal_ok, Conv2dExecutable.checkQuantization, pure_ok]
  · simp [conv2dDynamic, hdims, Conv2dExecutable.checkQuantization, pure_ok]

/-- The pushed constants give the table's shape back. -/
theorem conv2dDynamic_resolves (hnodup : dims.Nodup)
    (hvalues : ∀ d ∈ dims, conv2dFields.get d t < 2 ^ 32) {word : Option Nat} {precision : Precision}
    {scales : Option Scales} {activation epilogue : Activation} {out : Shape × Kernels} :
    (conv2dDynamic t dims word.isSome precision scales activation epilogue).resolveShape
        (constantBytes (pushed conv2dFields dims t word)) = .ok out ↔
      (∀ d ∈ dims, conv2dFields.get d t ≠ 0) ∧ conv2dShape precision activation t = out ∧
        validateConvShape out.1 out.2 = .ok () := by
  have hcount : (conv2dDynamic t dims word.isSome precision scales activation epilogue).constantCount =
      dims.length + trailingCount false word.isSome := rfl
  have hlength : (constantBytes (pushed conv2dFields dims t word)).length =
      (dims.length + trailingCount false word.isSome) * 4 := by
    rw [length_constantBytes, length_pushed]
  have hle : dims.length ≤
      ((dims.map fun d => conv2dFields.get d t).map le32 ++ word.toList.map le32).length := by
    rw [List.length_append, List.length_map, List.length_map]
    exact Nat.le_add_right _ _
  have hsets := (conv2dTable precision activation).sets (t := t) hnodup hvalues
    "runtime Conv2D dimensions must be nonzero" (word.toList.map le32)
  have hquantization (words : List Bytes) (shape : Shape) :
      (conv2dDynamic t dims word.isSome precision scales activation epilogue).resolveQuantization words
        shape = .ok shape := rfl
  unfold Conv2dExecutable.resolveShape
  rw [hcount, hlength, chunks_pushed]
  simp only [bind_ok, unlessErr_ok, true_and, exists_const]
  constructor
  · rintro ⟨⟨⟨shape, kernels⟩, words⟩, hdims, shape', hshape, _, hvalid, hout⟩
    obtain ⟨hset, -⟩ := (resolveDimensions_ok hle).mp hdims
    obtain ⟨hnonzero, hfilled⟩ := (hsets _).mp hset
    cases (hquantization words shape).symm.trans hshape
    cases hout
    exact ⟨hnonzero, hfilled, orRefusal_ok.mp hvalid⟩
  · rintro ⟨hnonzero, hfilled, hvalid⟩
    refine ⟨(out, _), (resolveDimensions_ok hle).mpr ⟨(hsets out).mpr ⟨hnonzero, hfilled⟩, rfl⟩, ?_⟩
    exact ⟨out.1, hquantization _ _, (), orRefusal_ok.mpr hvalid, rfl⟩

/-- What the executable of a template accepts and resolves to. -/
theorem conv2dDynamic_runs (hnodup : dims.Nodup)
    (hvalues : ∀ d ∈ dims, conv2dFields.get d t < 2 ^ 32) (word : Option Nat) (scales : Option Scales)
    (epilogue : Activation) {precision : Precision} {activation : Activation} {out : Shape × Kernels} :
    (conv2dDynamic t dims word.isSome precision scales activation epilogue).validateTemplate = .ok () ∧
        (conv2dDynamic t dims word.isSome precision scales activation epilogue).resolveShape
          (constantBytes (pushed conv2dFields dims t word)) = .ok out ↔
      (∀ d, conv2dFields.get d t ≠ 0) ∧ conv2dShape precision activation t = out ∧
        validateConvShape out.1 out.2 = .ok () := by
  rw [conv2dDynamic_validates hnodup, conv2dDynamic_resolves hnodup hvalues]
  have hstated := (conv2dTable precision activation).stated_iff dims t
  constructor
  · rintro ⟨⟨hunlisted, -⟩, hlisted, hout, hvalid⟩
    exact ⟨hstated.mp ⟨hunlisted, hlisted⟩, hout, hvalid⟩
  · rintro ⟨hnonzero, rfl, hvalid⟩
    obtain ⟨hunlisted, hlisted⟩ := hstated.mpr hnonzero
    exact ⟨⟨hunlisted, fun _ => hvalid⟩, hlisted, rfl, hvalid⟩

/-- A convolution's template means what its table means. -/
theorem conv2d_accepts (hnodup : dims.Nodup) (hvalues : ∀ d ∈ dims, conv2dFields.get d t < 2 ^ 32)
    (word : Option Nat) (shape : ResolvedShape) :
    Accepts (.conv2d (conv2dTemplate t dims word.isSome))
        (constantBytes (pushed conv2dFields dims t word)) shape ↔
      ∃ out, Conv2dMeans t out ∧ .conv2d out.1 out.2 t.epilogueAdd = shape := by
  rw [accepts_iff rfl fun _ => rfl]
  simp only [decodeConv2d_template]
  constructor
  · rintro ⟨_, ⟨precision, scales, activation, epilogue, hp, ha, he, rfl⟩, hcheck, out, hout, hshape⟩
    have hmeans := (conv2dDynamic_runs hnodup hvalues word scales epilogue).mp ⟨hcheck, hout⟩
    exact ⟨out, ⟨precision, scales, activation, epilogue, hp, ha, he, hmeans⟩, hshape⟩
  · rintro ⟨out, ⟨precision, scales, activation, epilogue, hp, ha, he, hmeans⟩, hshape⟩
    obtain ⟨hcheck, hout⟩ := (conv2dDynamic_runs hnodup hvalues word scales epilogue).mpr hmeans
    exact ⟨_, ⟨precision, scales, activation, epilogue, hp, ha, he, rfl⟩, hcheck, out, hout, hshape⟩

end Convolution

/-! ### Matmuls -/

/-- The dimensions of a matmul's table. -/
def matmulFields : Fields MatmulDef RuntimeMatmulDimension where
  get d t :=
    match d with
    | .m => t.m
    | .k => t.k
    | .n => t.n
  set d v t :=
    match d with
    | .m => { t with m := v }
    | .k => { t with k := v }
    | .n => { t with n := v }
  get_set d v t := by cases d <;> rfl
  get_set_ne d d' v t h := by cases d <;> cases d' <;> first | rfl | exact absurd rfl h
  set_get d t := by cases d <;> rfl
  set_set d v w t := by cases d <;> rfl
  set_comm d d' v w t h := by cases d <;> cases d' <;> first | rfl | exact absurd rfl h

def encodeMatmulDimension : RuntimeMatmulDimension → MatmulDimension
  | .m => .m
  | .k => .k
  | .n => .n

/-- The table that lists some dimensions, zero in it, and may declare a layout word. -/
def matmulTemplate (t : MatmulDef) (dims : List RuntimeMatmulDimension) (layout : Bool) : MatmulDef :=
  { matmulFields.blank dims t with
    runtimeDimensions := dims.map encodeMatmulDimension
    runtimeDenseReaders := false
    runtimeLayout := layout }

def matmulShape (precision : Precision) (activation : Activation) (t : MatmulDef) : Fc.Shape :=
  { m := t.m, k := t.k, n := t.n, precision, activation }

def matmulTable (precision : Precision) (activation : Activation) :
    TableShape Fc.Shape MatmulDef RuntimeMatmulDimension where
  fields := matmulFields
  all := RuntimeMatmulDimension.all
  mem_all d := by cases d <;> decide
  get shape d := RuntimeMatmulDimension.get shape d
  set d v shape := d.set shape v
  shapeOf := matmulShape precision activation
  get_shapeOf t d := by cases d <;> rfl
  set_shapeOf d v t := by cases d <;> rfl

/-- The shape lowers to a convolution that plans. -/
def Lowers (shape : Fc.Shape) : Prop :=
  ∃ conv, shape.tryAsConvShape policy = .ok conv ∧ validateConvShape conv Fc.kernels = .ok ()

/-- What a table means as a static executable. -/
def MatmulMeans (t : MatmulDef) (out : Fc.Shape) : Prop :=
  ∃ precision scales activation,
    decodePrecision t.precision ⟨t.inputZeroPoint, t.outputZeroPoint, t.weightsZeroPoint, t.inputScale,
        t.weightsScale, t.outputScale⟩ false = .ok (precision, scales) ∧
      precision.writesAccumulators = false ∧
      decodeActivation t.activation t.activationCmp = .ok activation ∧
      (∀ d, matmulFields.get d t ≠ 0) ∧ matmulShape precision activation t = out ∧ Lowers out

/-- The fold over the dimensions and the constants is the loop over them. -/
theorem foldlM_setDimension (dims : List RuntimeMatmulDimension) (words : List Bytes) (shape : Fc.Shape) :
    (dims.zip words).foldlM setDimension shape =
      setDimensions (fun d v shape => RuntimeMatmulDimension.set shape v d)
        "runtime matmul dimensions must be nonzero" dims words shape := by
  induction dims generalizing words shape with
  | nil => cases words <;> rfl
  | cons d dims ih =>
    cases words with
    | nil => rfl
    | cons bytes words =>
      simp only [List.zip_cons_cons, List.foldlM_cons, setDimension, setDimensions, bind_assoc,
        pure_bind, ih]

section Matmul

variable {t : MatmulDef} {dims : List RuntimeMatmulDimension}

/-- The executable of a template. -/
def matmulDynamic (t : MatmulDef) (dims : List RuntimeMatmulDimension) (layout : Bool)
    (precision : Precision) (activation : Activation) : MatmulExecutable where
  shapeTemplate := matmulShape precision activation (matmulFields.blank dims t)
  runtimeDimensions := dims
  runtimeDenseReaders := false
  runtimeLayout := layout
  weightsPacked := t.weightsPacked

theorem decodeMatmul_template {layout : Bool} {executable : MatmulExecutable × Option Scales} :
    decodeMatmul (matmulTemplate t dims layout) = .ok executable ↔
      ∃ precision scales activation,
        decodePrecision t.precision ⟨t.inputZeroPoint, t.outputZeroPoint, t.weightsZeroPoint,
            t.inputScale, t.weightsScale, t.outputScale⟩ false = .ok (precision, scales) ∧
          precision.writesAccumulators = false ∧
          decodeActivation t.activation t.activationCmp = .ok activation ∧
          (matmulDynamic t dims layout precision activation, scales) = executable := by
  have hkept : ∀ {β : Type} (g : MatmulDef → β), (∀ d v t, g (matmulFields.set d v t) = g t) →
      g (matmulFields.blank dims t) = g t := fun g hg => Fields.blank_congr hg t
  have hprecision := hkept (fun t => decodePrecision t.precision ⟨t.inputZeroPoint, t.outputZeroPoint,
    t.weightsZeroPoint, t.inputScale, t.weightsScale, t.outputScale⟩ false)
    (by intro d v t; cases d <;> rfl)
  have hactivation := hkept (fun t => decodeActivation t.activation t.activationCmp)
    (by intro d v t; cases d <;> rfl)
  have hpacked := hkept (fun t => t.weightsPacked) (by intro d v t; cases d <;> rfl)
  beta_reduce at hprecision hactivation hpacked
  have hdims : (dims.map encodeMatmulDimension).mapM decodeMatmulDimension = .ok dims :=
    mapM_map_ok (fun d => by cases d <;> rfl) dims
  unfold decodeMatmul decodeMatmulTable matmulTemplate matmulDynamic
  simp only [hdims, bind_ok, unlessErr_ok, pure_ok, exists_const, Except.ok.injEq, exists_eq_left',
    hprecision, hactivation, hpacked]
  constructor
  · rintro ⟨_, ⟨⟨precision, scales⟩, hp, hwrites, activation, ha, rfl⟩, rfl⟩
    exact ⟨precision, scales, activation, hp, hwrites, ha, rfl⟩
  · rintro ⟨precision, scales, activation, hp, hwrites, ha, rfl⟩
    exact ⟨_, ⟨(precision, scales), hp, hwrites, activation, ha, rfl⟩, rfl⟩

/-- The pushed constants give the table's shape back. -/
theorem matmulDynamic_resolves (hnodup : dims.Nodup)
    (hvalues : ∀ d ∈ dims, matmulFields.get d t < 2 ^ 32) (word : Option Nat) {precision : Precision}
    {activation : Activation} {out : Fc.Shape} :
    (matmulDynamic t dims word.isSome precision activation).resolveShape
        (constantBytes (pushed matmulFields dims t word)) = .ok out ↔
      (∀ d ∈ dims, matmulFields.get d t ≠ 0) ∧ matmulShape precision activation t = out ∧
        Lowers out := by
  have hlength : (constantBytes (pushed matmulFields dims t word)).length =
      (dims.length + trailingCount false word.isSome) * 4 := by
    rw [length_constantBytes, length_pushed]
  have hsets := (matmulTable precision activation).sets (t := t) hnodup hvalues
    "runtime matmul dimensions must be nonzero" (word.toList.map le32)
  unfold MatmulExecutable.resolveShape
  have hcount : (matmulDynamic t dims word.isSome precision activation).runtimeDimensions.length +
      (if (matmulDynamic t dims word.isSome precision activation).runtimeDenseReaders ∨
        (matmulDynamic t dims word.isSome precision activation).runtimeLayout then 1 else 0) =
      dims.length + trailingCount false word.isSome := rfl
  simp only [hcount, hlength, chunks_pushed, foldlM_setDimension, bind_ok, unlessErr_ok, exists_const,
    orRefusal_ok, pure_ok, true_and]
  constructor
  · rintro ⟨shape, hset, conv, hconv, _, hvalid, rfl⟩
    obtain ⟨hnonzero, hfilled⟩ := (hsets _).mp hset
    exact ⟨hnonzero, hfilled, conv, hconv, hvalid⟩
  · rintro ⟨hnonzero, hfilled, conv, hconv, hvalid⟩
    exact ⟨out, (hsets out).mpr ⟨hnonzero, hfilled⟩, conv, hconv, (), hvalid, rfl⟩

/-- A template that lists nothing is resolved with no constants, so it may declare no layout word. -/
theorem matmulDynamic_validates (hnodup : dims.Nodup) {word : Option Nat} {precision : Precision}
    {activation : Activation} :
    (matmulDynamic t dims word.isSome precision activation).validateTemplate = .ok () ↔
      (∀ d, d ∈ dims ∨ matmulFields.get d t ≠ 0) ∧
        (dims = [] → word = none ∧ Lowers (matmulShape precision activation t)) := by
  unfold MatmulExecutable.validateTemplate
  rw [bind_unit_ok]
  apply and_congr ((matmulTable precision activation).checks hnodup _ _ _)
  by_cases hdims : dims = []
  · subst hdims
    have hlisted : (matmulDynamic t [] word.isSome precision activation).runtimeDimensions = [] := rfl
    simp only [hlisted, if_true, bind_ok, pure_ok, true_imp_iff]
    cases word with
    | none =>
      have hresolves {out : Fc.Shape} :
          (matmulDynamic t [] false precision activation).resolveShape [] = .ok out ↔
            (∀ d ∈ [], matmulFields.get d t ≠ 0) ∧ matmulShape precision activation t = out ∧
              Lowers out :=
        matmulDynamic_resolves List.nodup_nil (List.forall_mem_nil _) none
      constructor
      · rintro ⟨out, hout, -⟩
        obtain ⟨-, rfl, hlowers⟩ := hresolves.mp hout
        exact ⟨rfl, hlowers⟩
      · rintro ⟨-, hlowers⟩
        exact ⟨_, hresolves.mpr ⟨List.forall_mem_nil _, rfl, hlowers⟩, trivial⟩
    | some word =>
      refine iff_of_false ?_ fun h => absurd h.1 (Option.some_ne_none word)
      rintro ⟨out, hout, -⟩
      unfold MatmulExecutable.resolveShape at hout
      simp only [bind_ok, unlessErr_ok] at hout
      obtain ⟨-, hlength, -⟩ := hout
      cases hlength
  · simp [matmulDynamic, hdims, pure_ok]

/-- A matmul's template means what its table means, where a list comes with the layout word. -/
theorem matmul_accepts (hnodup : dims.Nodup) (hvalues : ∀ d ∈ dims, matmulFields.get d t < 2 ^ 32)
    (word : Option Nat) (shape : ResolvedShape) :
    Accepts (.matmul (matmulTemplate t dims word.isSome))
        (constantBytes (pushed matmulFields dims t word)) shape ↔
      ∃ out, MatmulMeans t out ∧ (dims = [] → word = none) ∧ .matmul out = shape := by
  have hstated := (matmulTable .fp16 .none).stated_iff dims t
  have hdecode : decodeFlatbufferShape (.matmul (matmulTemplate t dims word.isSome)) = (do
      let executable ← decodeMatmul (matmulTemplate t dims word.isSome)
      orUnit executable.1.validateTemplate
      return UkernelShape.matmul executable.1 executable.2) := rfl
  rw [accepts_iff hdecode fun _ => rfl]
  simp only [decodeMatmul_template]
  constructor
  · rintro ⟨_, ⟨precision, scales, activation, hp, hwrites, ha, rfl⟩, hcheck, out, hout, hshape⟩
    obtain ⟨hunlisted, hnothing⟩ := (matmulDynamic_validates hnodup).mp hcheck
    obtain ⟨hlisted, hread, hlowers⟩ := (matmulDynamic_resolves hnodup hvalues word).mp hout
    have hnonzero := hstated.mp ⟨hunlisted, hlisted⟩
    exact ⟨out, ⟨precision, scales, activation, hp, hwrites, ha, hnonzero, hread, hlowers⟩,
      fun hdims => (hnothing hdims).1, hshape⟩
  · rintro ⟨_, ⟨precision, scales, activation, hp, hwrites, ha, hnonzero, rfl, hlowers⟩, hword, hshape⟩
    obtain ⟨hunlisted, hlisted⟩ := hstated.mpr hnonzero
    exact ⟨_, ⟨precision, scales, activation, hp, hwrites, ha, rfl⟩,
      (matmulDynamic_validates hnodup).mpr ⟨hunlisted, fun hdims => ⟨hword hdims, hlowers⟩⟩, _,
      (matmulDynamic_resolves hnodup hvalues word).mpr ⟨hlisted, rfl, hlowers⟩, hshape⟩

end Matmul

/-! ### Pools -/

/-- The dimensions of a pool's table. -/
def poolingFields : Fields PoolingDef RuntimePoolingDimension where
  get d t :=
    match d with
    | .inputWidth => t.inputWidth
    | .inputHeight => t.inputHeight
    | .channels => t.channels
    | .kernelWidth => t.kernelWidth
    | .kernelHeight => t.kernelHeight
    | .strideX => t.strideX
    | .strideY => t.strideY
  set d v t :=
    match d with
    | .inputWidth => { t with inputWidth := v }
    | .inputHeight => { t with inputHeight := v }
    | .channels => { t with channels := v }
    | .kernelWidth => { t with kernelWidth := v }
    | .kernelHeight => { t with kernelHeight := v }
    | .strideX => { t with strideX := v }
    | .strideY => { t with strideY := v }
  get_set d v t := by cases d <;> rfl
  get_set_ne d d' v t h := by cases d <;> cases d' <;> first | rfl | exact absurd rfl h
  set_get d t := by cases d <;> rfl
  set_set d v w t := by cases d <;> rfl
  set_comm d d' v w t h := by cases d <;> cases d' <;> first | rfl | exact absurd rfl h

def encodePoolingDimension : RuntimePoolingDimension → PoolingDimension
  | .inputWidth => .inputWidth
  | .inputHeight => .inputHeight
  | .channels => .channels
  | .kernelWidth => .kernelWidth
  | .kernelHeight => .kernelHeight
  | .strideX => .strideX
  | .strideY => .strideY

/-- The table that lists some dimensions, zero in it, and may declare a layout word. -/
def poolingTemplate (t : PoolingDef) (dims : List RuntimePoolingDimension) (layout : Bool) :
    PoolingDef :=
  { poolingFields.blank dims t with
    runtimeDimensions := dims.map encodePoolingDimension
    runtimeDenseReaders := false
    runtimeLayout := layout }

/-- The shape a table states, its method, precision and fill decoded. -/
def poolingShape (method : Pooling.PoolingMethod) (precision : Pooling.PoolingPrecision)
    (padValue : Nat) (t : PoolingDef) : Pooling.PoolingShape :=
  { inputWidth := t.inputWidth, inputHeight := t.inputHeight, inputChannels := t.channels
    outputWidth := t.outputWidth, outputHeight := t.outputHeight, outputChannels := t.channels
    precision, kernelWidth := t.kernelWidth, kernelHeight := t.kernelHeight, strideX := t.strideX
    strideY := t.strideY, method, padLeft := t.padLeft, padTop := t.padTop, padRight := t.padRight
    padBottom := t.padBottom, padValue }

def poolingTable (method : Pooling.PoolingMethod) (precision : Pooling.PoolingPrecision)
    (padValue : Nat) : TableShape Pooling.PoolingShape PoolingDef RuntimePoolingDimension where
  fields := poolingFields
  all := RuntimePoolingDimension.all
  mem_all d := by cases d <;> decide
  get shape d := RuntimePoolingDimension.get shape d
  set := RuntimePoolingDimension.set
  shapeOf := poolingShape method precision padValue
  get_shapeOf t d := by cases d <;> rfl
  set_shapeOf d v t := by cases d <;> rfl

/-- The fill a table's padding asks for. -/
def poolingFill (method : Pooling.PoolingMethod) (precision : Pooling.PoolingPrecision)
    (t : PoolingDef) : Option Nat :=
  requiredPadFill method precision (t.padLeft ||| t.padTop ||| t.padRight ||| t.padBottom != 0)

/-- What a table means once it is resolved, as a static executable or as a dynamic one. -/
def PoolMeans (static : Bool) (t : PoolingDef) (out : Pooling.PoolingShape) : Prop :=
  ∃ method precision padValue,
    decodePoolingMethod t.method = .ok method ∧ decodePoolingPrecision t.precision = .ok precision ∧
      poolingFill method precision t = some padValue ∧ (∀ d, poolingFields.get d t ≠ 0) ∧
      PoolingExecutable.deriveOutput static (poolingShape method precision padValue t) = .ok out ∧
      out.validate = .ok ()

section Pool

variable {t : PoolingDef} {dims : List RuntimePoolingDimension}

/-- The executable of a template. -/
def poolingDynamic (t : PoolingDef) (dims : List RuntimePoolingDimension) (layout : Bool)
    (method : Pooling.PoolingMethod) (precision : Pooling.PoolingPrecision) (padValue : Nat) :
    PoolingExecutable where
  shapeTemplate := poolingShape method precision padValue (poolingFields.blank dims t)
  runtimeDimensions := dims
  runtimeDenseReaders := false
  runtimeLayout := layout

theorem decodePooling_template {layout : Bool} {executable : PoolingExecutable} :
    decodePooling (poolingTemplate t dims layout) = .ok executable ↔
      ∃ method precision padValue,
        decodePoolingMethod t.method = .ok method ∧
          decodePoolingPrecision t.precision = .ok precision ∧
          poolingFill method precision t = some padValue ∧
          poolingDynamic t dims layout method precision padValue = executable := by
  have hkept : ∀ {β : Type} (g : PoolingDef → β), (∀ d v t, g (poolingFields.set d v t) = g t) →
      g (poolingFields.blank dims t) = g t := fun g hg => Fields.blank_congr hg t
  have hmethod := hkept (fun t => decodePoolingMethod t.method) (by intro d v t; cases d <;> rfl)
  have hprecision := hkept (fun t => decodePoolingPrecision t.precision)
    (by intro d v t; cases d <;> rfl)
  have hpadded := hkept (fun t => t.padLeft ||| t.padTop ||| t.padRight ||| t.padBottom != 0)
    (by intro d v t; cases d <;> rfl)
  beta_reduce at hmethod hprecision hpadded
  have hdims : (dims.map encodePoolingDimension).mapM decodePoolingDimension = .ok dims :=
    mapM_map_ok (fun d => by cases d <;> rfl) dims
  unfold decodePooling poolingTemplate poolingDynamic poolingFill
  simp only [hdims, bind_ok, okOr_ok, pure_ok, Except.ok.injEq, exists_eq_left', hmethod, hprecision,
    hpadded]
  constructor
  · rintro ⟨method, hm, precision, hp, padValue, hfill, rfl⟩
    exact ⟨method, precision, padValue, hm, hp, hfill, rfl⟩
  · rintro ⟨method, precision, padValue, hm, hp, hfill, rfl⟩
    exact ⟨method, hm, precision, hp, padValue, hfill, rfl⟩

/-- The pushed constants give the table's shape back, and the output extents are derived from it. -/
theorem poolingDynamic_resolves (hnodup : dims.Nodup)
    (hvalues : ∀ d ∈ dims, poolingFields.get d t < 2 ^ 32) (word : Option Nat)
    {method : Pooling.PoolingMethod} {precision : Pooling.PoolingPrecision} {padValue : Nat}
    {out : Pooling.PoolingShape} :
    (poolingDynamic t dims word.isSome method precision padValue).resolveShape
        (constantBytes (pushed poolingFields dims t word)) = .ok out ↔
      (∀ d ∈ dims, poolingFields.get d t ≠ 0) ∧
        PoolingExecutable.deriveOutput (dims == []) (poolingShape method precision padValue t) = .ok out ∧
        out.validate = .ok () := by
  have hlength : (constantBytes (pushed poolingFields dims t word)).length =
      (dims.length + trailingCount false word.isSome) * 4 := by
    rw [length_constantBytes, length_pushed]
  have hcount : (poolingDynamic t dims word.isSome method precision padValue).constantCount =
      dims.length + trailingCount false word.isSome := rfl
  have hsets := (poolingTable method precision padValue).sets (t := t) hnodup hvalues
    "runtime pooling dimensions must be nonzero" (word.toList.map le32)
  unfold PoolingExecutable.resolveShape
  simp only [hcount, hlength, chunks_pushed, bind_ok, unlessErr_ok, exists_const, mapError_ok, pure_ok,
    true_and]
  constructor
  · rintro ⟨shape, hset, out, hderive, _, hvalid, rfl⟩
    obtain ⟨hnonzero, rfl⟩ := (hsets _).mp hset
    exact ⟨hnonzero, hderive, hvalid⟩
  · rintro ⟨hnonzero, hderive, hvalid⟩
    exact ⟨_, (hsets _).mpr ⟨hnonzero, rfl⟩, out, hderive, (), hvalid, rfl⟩

/-- A template that lists nothing is resolved with no constants, so it may declare no layout word. -/
theorem poolingDynamic_validates (hnodup : dims.Nodup) {word : Option Nat}
    {method : Pooling.PoolingMethod} {precision : Pooling.PoolingPrecision} {padValue : Nat} :
    (poolingDynamic t dims word.isSome method precision padValue).validateTemplate = .ok () ↔
      (∀ d, d ∈ dims ∨ poolingFields.get d t ≠ 0) ∧
        (dims = [] → word = none ∧
          ∃ out, PoolingExecutable.deriveOutput true (poolingShape method precision padValue t) = .ok out ∧
            out.validate = .ok ()) := by
  unfold PoolingExecutable.validateTemplate
  rw [bind_unit_ok]
  apply and_congr ((poolingTable method precision padValue).checks hnodup _ _ _)
  by_cases hdims : dims = []
  · subst hdims
    have hlisted : (poolingDynamic t [] word.isSome method precision padValue).runtimeDimensions = [] :=
      rfl
    simp only [hlisted, if_true, bind_ok, pure_ok, true_imp_iff]
    cases word with
    | none =>
      have hresolves {out : Pooling.PoolingShape} :
          (poolingDynamic t [] false method precision padValue).resolveShape [] = .ok out ↔
            (∀ d ∈ [], poolingFields.get d t ≠ 0) ∧
              PoolingExecutable.deriveOutput true (poolingShape method precision padValue t) = .ok out ∧
              out.validate = .ok () :=
        poolingDynamic_resolves List.nodup_nil (List.forall_mem_nil _) none
      constructor
      · rintro ⟨out, hout, -⟩
        obtain ⟨-, hderive, hvalid⟩ := hresolves.mp hout
        exact ⟨rfl, out, hderive, hvalid⟩
      · rintro ⟨-, out, hderive, hvalid⟩
        exact ⟨out, hresolves.mpr ⟨List.forall_mem_nil _, hderive, hvalid⟩, trivial⟩
    | some word =>
      refine iff_of_false ?_ fun h => absurd h.1 (Option.some_ne_none word)
      rintro ⟨out, hout, -⟩
      unfold PoolingExecutable.resolveShape at hout
      simp only [bind_ok, unlessErr_ok] at hout
      obtain ⟨-, hlength, -⟩ := hout
      cases hlength
  · simp [poolingDynamic, hdims, pure_ok]

/-- A pool's template means what its table means there, where a list comes with the layout word. -/
theorem pooling_accepts (hnodup : dims.Nodup) (hvalues : ∀ d ∈ dims, poolingFields.get d t < 2 ^ 32)
    (word : Option Nat) (shape : ResolvedShape) :
    Accepts (.pooling (poolingTemplate t dims word.isSome))
        (constantBytes (pushed poolingFields dims t word)) shape ↔
      ∃ out, PoolMeans (dims == []) t out ∧ (dims = [] → word = none) ∧ .pooling out = shape := by
  have hstated := (poolingTable .max .fp16 0).stated_iff dims t
  rw [accepts_iff rfl fun _ => rfl]
  simp only [decodePooling_template]
  constructor
  · rintro ⟨_, ⟨method, precision, padValue, hm, hp, hfill, rfl⟩, hcheck, out, hout, hshape⟩
    obtain ⟨hunlisted, hnothing⟩ := (poolingDynamic_validates hnodup).mp hcheck
    obtain ⟨hlisted, hderive, hvalid⟩ := (poolingDynamic_resolves hnodup hvalues word).mp hout
    have hnonzero := hstated.mp ⟨hunlisted, hlisted⟩
    exact ⟨out, ⟨method, precision, padValue, hm, hp, hfill, hnonzero, hderive, hvalid⟩,
      fun hdims => (hnothing hdims).1, hshape⟩
  · rintro ⟨out, ⟨method, precision, padValue, hm, hp, hfill, hnonzero, hderive, hvalid⟩, hword, hshape⟩
    obtain ⟨hunlisted, hlisted⟩ := hstated.mpr hnonzero
    refine ⟨_, ⟨method, precision, padValue, hm, hp, hfill, rfl⟩, ?_, out, ?_, hshape⟩
    · refine (poolingDynamic_validates hnodup).mpr ⟨hunlisted, fun hdims => ⟨hword hdims, out, ?_, hvalid⟩⟩
      subst hdims
      exact hderive
    · exact (poolingDynamic_resolves hnodup hvalues word).mpr ⟨hlisted, hderive, hvalid⟩

/-! ### The output extents a pool states -/

/-- The output extents of floor-mode geometry. -/
def floorExtents (t : PoolingDef) : Nat × Nat :=
  ((t.inputWidth + t.padLeft + t.padRight - t.kernelWidth) / t.strideX + 1,
    (t.inputHeight + t.padTop + t.padBottom - t.kernelHeight) / t.strideY + 1)

/-- The output extents are unstated, or those of the geometry. -/
def StatesOutputs (t : PoolingDef) : Prop :=
  (t.outputWidth, t.outputHeight) = (0, 0) ∨ (t.outputWidth, t.outputHeight) = floorExtents t

/-- The window fits the padded input on both axes. -/
def WindowFits (t : PoolingDef) : Prop :=
  (t.inputWidth + t.padLeft + t.padRight < 2 ^ 32 ∧
      t.kernelWidth ≤ t.inputWidth + t.padLeft + t.padRight) ∧
    t.inputHeight + t.padTop + t.padBottom < 2 ^ 32 ∧
      t.kernelHeight ≤ t.inputHeight + t.padTop + t.padBottom

/-- The shape with its output extents derived. -/
def derivedShape (method : Pooling.PoolingMethod) (precision : Pooling.PoolingPrecision)
    (padValue : Nat) (t : PoolingDef) : Pooling.PoolingShape :=
  { poolingShape method precision padValue t with
    outputWidth := (floorExtents t).1, outputHeight := (floorExtents t).2 }

/-- The PPU can be programmed with the pool a table describes, whatever output extents it states. -/
def PoolProgrammable (t : PoolingDef) : Prop :=
  ∃ method precision padValue,
    decodePoolingMethod t.method = .ok method ∧ decodePoolingPrecision t.precision = .ok precision ∧
      poolingFill method precision t = some padValue ∧ (∀ d, poolingFields.get d t ≠ 0) ∧ WindowFits t ∧
      (derivedShape method precision padValue t).validate = .ok ()

theorem floorOutputExtent_ok {input kernel stride before after out : Nat} (hkernel : kernel ≠ 0)
    (hstride : stride ≠ 0) :
    floorOutputExtent input kernel stride before after = .ok out ↔
      (input + before + after < 2 ^ 32 ∧ kernel ≤ input + before + after) ∧
        (input + before + after - kernel) / stride + 1 = out := by
  unfold floorOutputExtent
  simp only [bind_ok, unlessErr_ok, exists_const, pure_ok, and_assoc]
  exact (and_iff_right hkernel).trans (and_iff_right hstride)

theorem deriveOutput_ok {static : Bool} {method : Pooling.PoolingMethod}
    {precision : Pooling.PoolingPrecision} {padValue : Nat} {out : Pooling.PoolingShape}
    (hnonzero : ∀ d, poolingFields.get d t ≠ 0) :
    PoolingExecutable.deriveOutput static (poolingShape method precision padValue t) = .ok out ↔
      WindowFits t ∧ (static = true → StatesOutputs t) ∧
        derivedShape method precision padValue t = out := by
  have hkernelWidth : t.kernelWidth ≠ 0 := hnonzero .kernelWidth
  have hkernelHeight : t.kernelHeight ≠ 0 := hnonzero .kernelHeight
  have hstrideX : t.strideX ≠ 0 := hnonzero .strideX
  have hstrideY : t.strideY ≠ 0 := hnonzero .strideY
  have hstates : (static = true → (t.outputWidth, t.outputHeight) ≠ (0, 0) →
      (t.outputWidth, t.outputHeight) = floorExtents t) ↔ (static = true → StatesOutputs t) :=
    imp_congr_right fun _ => or_iff_not_imp_left.symm
  unfold PoolingExecutable.deriveOutput
  simp only [bind_ok, unlessErr_ok, exists_const, pure_ok]
  constructor
  · rintro ⟨width, hw, height, hh, hdeclared, rfl⟩
    obtain ⟨hfitsWidth, rfl⟩ := (floorOutputExtent_ok hkernelWidth hstrideX).mp hw
    obtain ⟨hfitsHeight, rfl⟩ := (floorOutputExtent_ok hkernelHeight hstrideY).mp hh
    exact ⟨⟨hfitsWidth, hfitsHeight⟩, hstates.mp hdeclared, rfl⟩
  · rintro ⟨⟨hfitsWidth, hfitsHeight⟩, hdeclared, rfl⟩
    exact ⟨_, (floorOutputExtent_ok hkernelWidth hstrideX).mpr ⟨hfitsWidth, rfl⟩, _,
      (floorOutputExtent_ok hkernelHeight hstrideY).mpr ⟨hfitsHeight, rfl⟩, hstates.mpr hdeclared, rfl⟩

theorem poolMeans_iff {static : Bool} :
    (∃ out, PoolMeans static t out) ↔ PoolProgrammable t ∧ (static = true → StatesOutputs t) := by
  constructor
  · rintro ⟨out, method, precision, padValue, hm, hp, hfill, hnonzero, hderive, hvalid⟩
    obtain ⟨hfits, hstates, rfl⟩ := (deriveOutput_ok hnonzero).mp hderive
    exact ⟨⟨method, precision, padValue, hm, hp, hfill, hnonzero, hfits, hvalid⟩, hstates⟩
  · rintro ⟨⟨method, precision, padValue, hm, hp, hfill, hnonzero, hfits, hvalid⟩, hstates⟩
    exact ⟨_, method, precision, padValue, hm, hp, hfill, hnonzero,
      (deriveOutput_ok hnonzero).mpr ⟨hfits, hstates, rfl⟩, hvalid⟩

/-- A static pool is one that states its output extents. -/
theorem poolMeans_static {out : Pooling.PoolingShape} :
    PoolMeans true t out ↔ PoolMeans false t out ∧ StatesOutputs t := by
  constructor
  · rintro ⟨method, precision, padValue, hm, hp, hfill, hnonzero, hderive, hvalid⟩
    obtain ⟨hfits, hstates, hout⟩ := (deriveOutput_ok hnonzero).mp hderive
    exact ⟨⟨method, precision, padValue, hm, hp, hfill, hnonzero,
      (deriveOutput_ok hnonzero).mpr ⟨hfits, nofun, hout⟩, hvalid⟩, hstates rfl⟩
  · rintro ⟨⟨method, precision, padValue, hm, hp, hfill, hnonzero, hderive, hvalid⟩, hstates⟩
    obtain ⟨hfits, -, hout⟩ := (deriveOutput_ok hnonzero).mp hderive
    exact ⟨method, precision, padValue, hm, hp, hfill, hnonzero,
      (deriveOutput_ok hnonzero).mpr ⟨hfits, fun _ => hstates, hout⟩, hvalid⟩

end Pool

/-! ### Element-wise operations -/

/-- The dimensions of an element-wise table. -/
def geometryFields : Fields ElementwiseGeometry RuntimeElementwiseDimension where
  get d g := RuntimeElementwiseDimension.get g d
  set := RuntimeElementwiseDimension.set
  get_set d v g := by cases d <;> rfl
  get_set_ne d d' v g h := by cases d <;> cases d' <;> first | rfl | exact absurd rfl h
  set_get d g := by cases d <;> rfl
  set_set d v w g := by cases d <;> rfl
  set_comm d d' v w g h := by cases d <;> cases d' <;> first | rfl | exact absurd rfl h

def encodeElementwiseDimension : RuntimeElementwiseDimension → ElementwiseDimension
  | .width => .width
  | .height => .height
  | .channels => .channels

def geometryTable :
    TableShape ElementwiseGeometry ElementwiseGeometry RuntimeElementwiseDimension where
  fields := geometryFields
  all := RuntimeElementwiseDimension.all
  mem_all d := by cases d <;> decide
  get g d := RuntimeElementwiseDimension.get g d
  set := RuntimeElementwiseDimension.set
  shapeOf g := g
  get_shapeOf _ _ := rfl
  set_shapeOf _ _ _ := rfl

section Elementwise

variable {g : ElementwiseGeometry} {dims : List RuntimeElementwiseDimension}

/-- What the three executables share, of a template. -/
def elementwiseDynamic (g : ElementwiseGeometry) (dims : List RuntimeElementwiseDimension)
    (layout : Bool) : ElementwiseTemplate where
  geometry := geometryFields.blank dims g
  runtimeDimensions := dims
  runtimeDenseReaders := false
  runtimeLayout := layout

theorem decodeDimensions_encode : (dims.map encodeElementwiseDimension).mapM decodeElementwiseDimension =
    .ok dims :=
  mapM_map_ok (fun d => by cases d <;> rfl) dims

/-- What a template accepts and resolves to. -/
theorem elementwiseDynamic_runs (hnodup : dims.Nodup)
    (hvalues : ∀ d ∈ dims, geometryFields.get d g < 2 ^ 32) (word : Option Nat)
    {out : ElementwiseGeometry} :
    (elementwiseDynamic g dims word.isSome).validate = .ok () ∧
        (elementwiseDynamic g dims word.isSome).resolveGeometry
          (constantBytes (pushed geometryFields dims g word)) = .ok out ↔
      (∀ d, geometryFields.get d g ≠ 0) ∧ g = out := by
  have hcount : (elementwiseDynamic g dims word.isSome).constantCount =
      dims.length + trailingCount false word.isSome := rfl
  have hlength : (constantBytes (pushed geometryFields dims g word)).length =
      (dims.length + trailingCount false word.isSome) * 4 := by
    rw [length_constantBytes, length_pushed]
  unfold ElementwiseTemplate.resolveGeometry
  rw [hcount, hlength, chunks_pushed, bind_unit_ok, unlessErr_ok, and_iff_right rfl]
  exact geometryTable.checks_and_sets hnodup hvalues _ _ _ _ _

/-- A unary table that lists some dimensions. -/
def unaryTemplate (t : ElementwiseUnaryDef) (dims : List RuntimeElementwiseDimension) (layout : Bool) :
    ElementwiseUnaryDef :=
  let g := geometryFields.blank dims ⟨t.width, t.height, t.channels⟩
  { t with
    width := g.width, height := g.height, channels := g.channels
    runtimeDimensions := dims.map encodeElementwiseDimension
    runtimeDenseReaders := false
    runtimeLayout := layout }

/-- What a unary table means as a static executable. -/
def UnaryMeans (t : ElementwiseUnaryDef) (out : EwUnaryShape) : Prop :=
  let g : ElementwiseGeometry := ⟨t.width, t.height, t.channels⟩
  ∃ algo, decodeEwUnaryOp t.op = .ok algo ∧ (t.operand ≠ 0 → algo = .add) ∧
    (∀ d, geometryFields.get d g ≠ 0) ∧ ⟨g, algo, t.operand⟩ = out

theorem unary_accepts {t : ElementwiseUnaryDef} (hnodup : dims.Nodup)
    (hvalues : ∀ d ∈ dims, geometryFields.get d ⟨t.width, t.height, t.channels⟩ < 2 ^ 32)
    (word : Option Nat) (shape : ResolvedShape) :
    Accepts (.elementwiseUnary (unaryTemplate t dims word.isSome))
        (constantBytes (pushed geometryFields dims ⟨t.width, t.height, t.channels⟩ word)) shape ↔
      ∃ out, UnaryMeans t out ∧ .elementwiseUnary out = shape := by
  have hruns {geometry : ElementwiseGeometry} := @elementwiseDynamic_runs _ _ hnodup hvalues word geometry
  rw [accepts_iff rfl fun _ => rfl]
  unfold decodeElementwiseUnary unaryTemplate ElementwiseUnaryExecutable.validateTemplate
    ElementwiseUnaryExecutable.resolveShape
  simp only [bind_ok, unlessErr_ok, pure_ok, decodeDimensions_encode, Except.ok.injEq, exists_eq_left']
  constructor
  · rintro ⟨_, ⟨algo, halgo, rfl⟩, ⟨_, hcheck, hoperand⟩, _, ⟨geometry, hout, rfl⟩, hshape⟩
    obtain ⟨hnonzero, rfl⟩ := hruns.mp ⟨hcheck, hout⟩
    exact ⟨_, ⟨algo, halgo, hoperand, hnonzero, rfl⟩, hshape⟩
  · rintro ⟨_, ⟨algo, halgo, hoperand, hnonzero, rfl⟩, hshape⟩
    obtain ⟨hcheck, hout⟩ := hruns.mpr ⟨hnonzero, rfl⟩
    exact ⟨_, ⟨algo, halgo, rfl⟩, ⟨(), hcheck, hoperand⟩, _, ⟨_, hout, rfl⟩, hshape⟩

/-- A binary table that lists some dimensions. -/
def binaryTemplate (t : ElementwiseBinaryDef) (dims : List RuntimeElementwiseDimension)
    (layout : Bool) : ElementwiseBinaryDef :=
  let g := geometryFields.blank dims ⟨t.width, t.height, t.channels⟩
  { t with
    width := g.width, height := g.height, channels := g.channels
    runtimeDimensions := dims.map encodeElementwiseDimension
    runtimeDenseReaders := false
    runtimeLayout := layout }

/-- What a binary table means as a static executable. -/
def BinaryMeans (t : ElementwiseBinaryDef) (out : EwAddShape) : Prop :=
  let g : ElementwiseGeometry := ⟨t.width, t.height, t.channels⟩
  ∃ op, decodeEwBinaryOp t.op = .ok op ∧ (∀ d, geometryFields.get d g ≠ 0) ∧ ⟨g, op⟩ = out

theorem binary_accepts {t : ElementwiseBinaryDef} (hnodup : dims.Nodup)
    (hvalues : ∀ d ∈ dims, geometryFields.get d ⟨t.width, t.height, t.channels⟩ < 2 ^ 32)
    (word : Option Nat) (shape : ResolvedShape) :
    Accepts (.elementwiseBinary (binaryTemplate t dims word.isSome))
        (constantBytes (pushed geometryFields dims ⟨t.width, t.height, t.channels⟩ word)) shape ↔
      ∃ out, BinaryMeans t out ∧ .elementwiseBinary out = shape := by
  have hruns {geometry : ElementwiseGeometry} := @elementwiseDynamic_runs _ _ hnodup hvalues word geometry
  rw [accepts_iff rfl fun _ => rfl]
  unfold decodeElementwiseBinary binaryTemplate ElementwiseBinaryExecutable.validateTemplate
    ElementwiseBinaryExecutable.resolveShape
  simp only [bind_ok, pure_ok, decodeDimensions_encode, Except.ok.injEq, exists_eq_left']
  constructor
  · rintro ⟨_, ⟨op, hop, rfl⟩, hcheck, _, ⟨geometry, hout, rfl⟩, hshape⟩
    obtain ⟨hnonzero, rfl⟩ := hruns.mp ⟨hcheck, hout⟩
    exact ⟨_, ⟨op, hop, hnonzero, rfl⟩, hshape⟩
  · rintro ⟨_, ⟨op, hop, hnonzero, rfl⟩, hshape⟩
    obtain ⟨hcheck, hout⟩ := hruns.mpr ⟨hnonzero, rfl⟩
    exact ⟨_, ⟨op, hop, rfl⟩, hcheck, _, ⟨_, hout, rfl⟩, hshape⟩

/-- A table-lookup table that lists some dimensions. -/
def lutTemplate (t : ElementwiseLutDef) (dims : List RuntimeElementwiseDimension) (layout : Bool) :
    ElementwiseLutDef :=
  let g := geometryFields.blank dims ⟨t.width, t.height, t.channels⟩
  { t with
    width := g.width, height := g.height, channels := g.channels
    runtimeDimensions := dims.map encodeElementwiseDimension
    runtimeDenseReaders := false
    runtimeLayout := layout }

/-- What the tables of the lookup ask of the quantization. -/
def LutQuantized (t : ElementwiseLutDef) : Prop :=
  asI32 t.inputZeroPoint ∈ supportedLutZeroPoints ∧
    (-128 ≤ asI32 t.outputZeroPoint ∧ asI32 t.outputZeroPoint ≤ 127) ∧
      F32.IsFinite t.inputScale ∧ F32.IsFinite t.outputScale ∧ F32.IsPositive t.inputScale ∧
        F32.IsPositive t.outputScale

/-- What a lookup's table means as a static executable. -/
def LutMeans (t : ElementwiseLutDef) (out : LutShape) : Prop :=
  let g : ElementwiseGeometry := ⟨t.width, t.height, t.channels⟩
  (∃ function, decodeLutFn t.fn = .ok function) ∧ LutQuantized t ∧ (∀ d, geometryFields.get d g ≠ 0) ∧
    ⟨g, ElementwiseLutExecutable.biased (asI32 t.inputZeroPoint),
      ElementwiseLutExecutable.biased (asI32 t.outputZeroPoint), t.inputScale, t.outputScale⟩ = out

theorem lut_accepts {t : ElementwiseLutDef} (hnodup : dims.Nodup)
    (hvalues : ∀ d ∈ dims, geometryFields.get d ⟨t.width, t.height, t.channels⟩ < 2 ^ 32)
    (word : Option Nat) (shape : ResolvedShape) :
    Accepts (.elementwiseLut (lutTemplate t dims word.isSome))
        (constantBytes (pushed geometryFields dims ⟨t.width, t.height, t.channels⟩ word)) shape ↔
      ∃ out, LutMeans t out ∧ .elementwiseLut out = shape := by
  have hruns {geometry : ElementwiseGeometry} := @elementwiseDynamic_runs _ _ hnodup hvalues word geometry
  rw [accepts_iff rfl fun _ => rfl]
  unfold decodeElementwiseLut lutTemplate ElementwiseLutExecutable.validateTemplate
    ElementwiseLutExecutable.resolveShape
  simp only [bind_ok, unlessErr_ok, pure_ok, decodeDimensions_encode, Except.ok.injEq, exists_eq_left',
    exists_const]
  constructor
  · rintro ⟨_, ⟨function, hfunction, rfl⟩, ⟨_, hcheck, hin, hout, hscales⟩, _, ⟨geometry, hread, rfl⟩,
      hshape⟩
    obtain ⟨hnonzero, rfl⟩ := hruns.mp ⟨hcheck, hread⟩
    exact ⟨_, ⟨⟨function, hfunction⟩, ⟨hin, hout, hscales⟩, hnonzero, rfl⟩, hshape⟩
  · rintro ⟨_, ⟨⟨function, hfunction⟩, ⟨hin, hout, hscales⟩, hnonzero, rfl⟩, hshape⟩
    obtain ⟨hcheck, hread⟩ := hruns.mpr ⟨hnonzero, rfl⟩
    exact ⟨_, ⟨function, hfunction, rfl⟩, ⟨(), hcheck, hin, hout, hscales⟩, _, ⟨_, hread, rfl⟩, hshape⟩

end Elementwise

/-! ### Every kind -/

/-- A concrete table and the dimensions of it that a dispatch supplies. -/
inductive Specialisation
  | conv2d (table : Conv2DDef) (dims : List RuntimeConv2dDimension)
  | matmul (table : MatmulDef) (dims : List RuntimeMatmulDimension)
  | pooling (table : PoolingDef) (dims : List RuntimePoolingDimension)
  | elementwiseUnary (table : ElementwiseUnaryDef) (dims : List RuntimeElementwiseDimension)
  | elementwiseBinary (table : ElementwiseBinaryDef) (dims : List RuntimeElementwiseDimension)
  | elementwiseLut (table : ElementwiseLutDef) (dims : List RuntimeElementwiseDimension)

namespace Specialisation

/-- The listed dimensions are different, and each fits a push constant. -/
def WellFormed : Specialisation → Prop
  | conv2d t dims => dims.Nodup ∧ ∀ d ∈ dims, conv2dFields.get d t < 2 ^ 32
  | matmul t dims => dims.Nodup ∧ ∀ d ∈ dims, matmulFields.get d t < 2 ^ 32
  | pooling t dims => dims.Nodup ∧ ∀ d ∈ dims, poolingFields.get d t < 2 ^ 32
  | elementwiseUnary t dims =>
    dims.Nodup ∧ ∀ d ∈ dims, geometryFields.get d ⟨t.width, t.height, t.channels⟩ < 2 ^ 32
  | elementwiseBinary t dims =>
    dims.Nodup ∧ ∀ d ∈ dims, geometryFields.get d ⟨t.width, t.height, t.channels⟩ < 2 ^ 32
  | elementwiseLut t dims =>
    dims.Nodup ∧ ∀ d ∈ dims, geometryFields.get d ⟨t.width, t.height, t.channels⟩ < 2 ^ 32

/-- The dynamic executable. -/
def template (layout : Bool) : Specialisation → KernelDef
  | conv2d t dims => .conv2d (conv2dTemplate t dims layout)
  | matmul t dims => .matmul (matmulTemplate t dims layout)
  | pooling t dims => .pooling (poolingTemplate t dims layout)
  | elementwiseUnary t dims => .elementwiseUnary (unaryTemplate t dims layout)
  | elementwiseBinary t dims => .elementwiseBinary (binaryTemplate t dims layout)
  | elementwiseLut t dims => .elementwiseLut (lutTemplate t dims layout)

/-- The fully static executable, without a layout word. -/
def static : Specialisation → KernelDef
  | conv2d t _ => .conv2d (conv2dTemplate t [] false)
  | matmul t _ => .matmul (matmulTemplate t [] false)
  | pooling t _ => .pooling (poolingTemplate t [] false)
  | elementwiseUnary t _ => .elementwiseUnary (unaryTemplate t [] false)
  | elementwiseBinary t _ => .elementwiseBinary (binaryTemplate t [] false)
  | elementwiseLut t _ => .elementwiseLut (lutTemplate t [] false)

/-- The push constants of a dispatch: the listed dimensions' values, then the layout word. -/
def constants (word : Option Nat) : Specialisation → Bytes
  | conv2d t dims => constantBytes (pushed conv2dFields dims t word)
  | matmul t dims => constantBytes (pushed matmulFields dims t word)
  | pooling t dims => constantBytes (pushed poolingFields dims t word)
  | elementwiseUnary t dims =>
    constantBytes (pushed geometryFields dims ⟨t.width, t.height, t.channels⟩ word)
  | elementwiseBinary t dims =>
    constantBytes (pushed geometryFields dims ⟨t.width, t.height, t.channels⟩ word)
  | elementwiseLut t dims =>
    constantBytes (pushed geometryFields dims ⟨t.width, t.height, t.channels⟩ word)

/-- The template and its constants give a shape where the static executable gives it. -/
def SameMeaning (x : Specialisation) (word : Option Nat) : Prop :=
  ∀ shape, Accepts (x.template word.isSome) (x.constants word) shape ↔ Accepts x.static [] shape

/-- The template does not fall into a branch of its own: a sound matmul or pool that lists nothing
declares no layout word, and a programmable pool that lists a dimension states no other output extents
than the geometry's. -/
def Agrees (word : Option Nat) : Specialisation → Prop
  | matmul t dims => dims = [] → word.isSome = true → ¬∃ out, MatmulMeans t out
  | pooling t dims =>
    if dims = [] then word.isSome = true → ¬(PoolProgrammable t ∧ StatesOutputs t)
    else PoolProgrammable t → StatesOutputs t
  | conv2d .. | elementwiseUnary .. | elementwiseBinary .. | elementwiseLut .. => True

theorem matmul_same_iff {t : MatmulDef} {dims : List RuntimeMatmulDimension} {word : Option Nat}
    (h : (matmul t dims).WellFormed) :
    (matmul t dims).SameMeaning word ↔ (matmul t dims).Agrees word := by
  have hdynamic (shape : ResolvedShape) : Accepts ((matmul t dims).template word.isSome)
      ((matmul t dims).constants word) shape ↔
        ∃ out, MatmulMeans t out ∧ (dims = [] → word = none) ∧ .matmul out = shape :=
    matmul_accepts h.1 h.2 word shape
  have hstatic (shape : ResolvedShape) : Accepts (matmul t dims).static [] shape ↔
      ∃ out, MatmulMeans t out ∧ .matmul out = shape := by
    refine (matmul_accepts List.nodup_nil (List.forall_mem_nil _) none shape).trans ?_
    simp only [implies_true, true_and]
  unfold SameMeaning Agrees
  simp only [hdynamic, hstatic]
  constructor
  · rintro hsame hdims hword ⟨out, hmeans⟩
    obtain ⟨_, -, hnone, -⟩ := (hsame (.matmul out)).mpr ⟨out, hmeans, rfl⟩
    rw [hnone hdims] at hword
    cases hword
  · intro hagrees shape
    constructor
    · rintro ⟨out, hmeans, -, hshape⟩
      exact ⟨out, hmeans, hshape⟩
    · rintro ⟨out, hmeans, hshape⟩
      refine ⟨out, hmeans, fun hdims => ?_, hshape⟩
      rw [← Option.not_isSome_iff_eq_none]
      exact fun hword => hagrees hdims hword ⟨out, hmeans⟩

theorem pooling_same_iff {t : PoolingDef} {dims : List RuntimePoolingDimension} {word : Option Nat}
    (h : (pooling t dims).WellFormed) :
    (pooling t dims).SameMeaning word ↔ (pooling t dims).Agrees word := by
  have hdynamic (shape : ResolvedShape) : Accepts ((pooling t dims).template word.isSome)
      ((pooling t dims).constants word) shape ↔
        ∃ out, PoolMeans (dims == []) t out ∧ (dims = [] → word = none) ∧ .pooling out = shape :=
    pooling_accepts h.1 h.2 word shape
  have hstatic (shape : ResolvedShape) : Accepts (pooling t dims).static [] shape ↔
      ∃ out, PoolMeans true t out ∧ .pooling out = shape := by
    refine (pooling_accepts List.nodup_nil (List.forall_mem_nil _) none shape).trans ?_
    simp only [implies_true, true_and, BEq.rfl]
  have hmeans : (∃ out, PoolMeans true t out) ↔ PoolProgrammable t ∧ StatesOutputs t := by
    rw [poolMeans_iff, forall_prop_of_true rfl]
  unfold SameMeaning Agrees
  simp only [hdynamic, hstatic]
  by_cases hdims : dims = []
  · subst hdims
    rw [if_pos rfl, ← hmeans]
    constructor
    · rintro hsame hword ⟨out, hout⟩
      obtain ⟨_, -, hnone, -⟩ := (hsame (.pooling out)).mpr ⟨out, hout, rfl⟩
      rw [hnone rfl] at hword
      cases hword
    · intro hagrees shape
      constructor
      · rintro ⟨out, hout, -, hshape⟩
        exact ⟨out, hout, hshape⟩
      · rintro ⟨out, hout, hshape⟩
        refine ⟨out, hout, fun _ => ?_, hshape⟩
        rw [← Option.not_isSome_iff_eq_none]
        exact fun hword => hagrees hword ⟨out, hout⟩
  · have hlists : (dims == []) = false := beq_eq_false_iff_ne.mpr hdims
    rw [if_neg hdims, hlists]
    constructor
    · intro hsame hprogrammable
      obtain ⟨out, hout⟩ : ∃ out, PoolMeans false t out := poolMeans_iff.mpr ⟨hprogrammable, nofun⟩
      obtain ⟨out', hout', -⟩ :=
        (hsame (.pooling out)).mp ⟨out, hout, fun h => absurd h hdims, rfl⟩
      exact (poolMeans_static.mp hout').2
    · intro hagrees shape
      constructor
      · rintro ⟨out, hout, -, hshape⟩
        have hstates := hagrees (poolMeans_iff.mp ⟨out, hout⟩).1
        exact ⟨out, poolMeans_static.mpr ⟨hout, hstates⟩, hshape⟩
      · rintro ⟨out, hout, hshape⟩
        exact ⟨out, (poolMeans_static.mp hout).1, fun h => absurd h hdims, hshape⟩

/-- **A template specialised to a table's values means what the static table means, exactly where it does
not fall into a branch of its own.** -/
theorem same_meaning_iff (x : Specialisation) (word : Option Nat) (h : x.WellFormed) :
    x.SameMeaning word ↔ x.Agrees word := by
  cases x with
  | conv2d t dims =>
    refine iff_of_true (fun shape => ?_) trivial
    exact (conv2d_accepts h.1 h.2 word shape).trans
      (conv2d_accepts List.nodup_nil (List.forall_mem_nil _) none shape).symm
  | matmul t dims => exact matmul_same_iff h
  | pooling t dims => exact pooling_same_iff h
  | elementwiseUnary t dims =>
    refine iff_of_true (fun shape => ?_) trivial
    exact (unary_accepts h.1 h.2 word shape).trans
      (unary_accepts List.nodup_nil (List.forall_mem_nil _) none shape).symm
  | elementwiseBinary t dims =>
    refine iff_of_true (fun shape => ?_) trivial
    exact (binary_accepts h.1 h.2 word shape).trans
      (binary_accepts List.nodup_nil (List.forall_mem_nil _) none shape).symm
  | elementwiseLut t dims =>
    refine iff_of_true (fun shape => ?_) trivial
    exact (lut_accepts h.1 h.2 word shape).trans
      (lut_accepts List.nodup_nil (List.forall_mem_nil _) none shape).symm

/-- The static pool of a 4x4 input. -/
def pool4x4 : PoolingDef where
  inputWidth := 4
  inputHeight := 4
  channels := 8
  outputWidth := 2
  outputHeight := 2
  kernelWidth := 2
  kernelHeight := 2
  strideX := 2
  strideY := 2
  padLeft := 0
  padTop := 0
  padRight := 0
  padBottom := 0
  method := .max
  precision := .fp16
  runtimeDimensions := []
  runtimeDenseReaders := false
  runtimeLayout := false

/-- Its extents supplied by the dispatch, height first, with a layout word. -/
theorem same_meaning_height_width :
    (pooling pool4x4 [.inputHeight, .inputWidth]).SameMeaning (some 3) ↔
      (pooling pool4x4 [.inputHeight, .inputWidth]).Agrees (some 3) :=
  same_meaning_iff _ _ ⟨by decide, by decide⟩

/-- **A static pool that declares a layout word is refused.** -/
theorem static_pool_layout_refused :
    (pooling pool4x4 []).WellFormed ∧ ¬(pooling pool4x4 []).SameMeaning (some 3) := by
  refine ⟨⟨by decide, by decide⟩, fun hsame => ?_⟩
  have hstatic : Accepts (pooling pool4x4 []).static []
      (.pooling (derivedShape .max .fp16 0xFC00 pool4x4)) :=
    ⟨.pooling (poolingDynamic pool4x4 [] false .max .fp16 0xFC00), by decide +kernel, by decide +kernel⟩
  have hrefused : decodeFlatbufferShape ((pooling pool4x4 []).template true) = .error () := by
    decide +kernel
  obtain ⟨_, hdecode, -⟩ := (hsame _).mpr hstatic
  cases hrefused.symm.trans hdecode

end Specialisation

end IreeRocket.Driver
