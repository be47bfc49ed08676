import IreeRocket.Driver.ResolvedCubes
import IreeRocket.Plugin.AssignLayout

/-!
# A declared edge never fails at run time

The compiler describes a dispatch from its target config and constant operands, the driver from the
executable and the push constants. `Agrees` says that both read the same dimension values. Under it a
packed edge is between the cube the driver publishes for the producer and the one it would pack the
consumer's binding to (`declared_edge_chains`).
-/

namespace IreeRocket.Plugin

open Conv Layout PlanFfi Driver

/-- `rocket_plan_precision_e` of a decoded precision. -/
def wirePrecision : Precision → Option Nat
  | .fp16 => some 0
  | .int8 _ => some 6
  | .int8Accumulator _ => some 7
  | _ => none

def wirePoolingPrecision : Pooling.PoolingPrecision → Nat
  | .fp16 => 0
  | .int8 => 6

/-- The compiler reads these values, each a `u32` at run time. -/
def DimsAgree (dim : String → Option Int) (values : List (String × Nat)) : Prop :=
  ∀ name value, (name, value) ∈ values → dim name = some (value : Int) ∧ value < 2 ^ 32

theorem dimsAgree_cons {dim : String → Option Int} {name : String} {value : Nat}
    {rest : List (String × Nat)} : DimsAgree dim ((name, value) :: rest) ↔
      (dim name = some (value : Int) ∧ value < 2 ^ 32) ∧ DimsAgree dim rest := by
  constructor
  · intro h
    exact ⟨h _ _ List.mem_cons_self, fun _ _ hmem => h _ _ (List.mem_cons_of_mem _ hmem)⟩
  · rintro ⟨h, hrest⟩ name' value' hmem
    rcases List.mem_cons.mp hmem with heq | hmem
    · obtain ⟨rfl, rfl⟩ := Prod.mk.inj heq
      exact h
    · exact hrest _ _ hmem

theorem dimsAgree_nil {dim : String → Option Int} : DimsAgree dim [] := fun _ _ h => nomatch h

/-- An absent padding is zero. -/
def PadAgrees (dim : String → Option Int) (name : String) (value : Nat) : Prop :=
  (dim name).getD 0 = value ∧ value < 2 ^ 32

/-- The dispatch the compiler describes is the one the driver resolves. -/
def Agrees (kernel : String) (config : Config) (dim : String → Option Int) : ResolvedShape → Prop
  | .conv2d shape kernels epilogueAdd =>
    kernel = "conv2d" ∧ wirePrecision shape.precision = config.precisionCode ∧
      config.boolFlag "depthwise" = shape.depthwise ∧
      config.boolFlag "epilogue_add" = epilogueAdd ∧
      DimsAgree dim [("input_width", shape.width), ("input_height", shape.height),
        ("input_channels", shape.inChannels), ("output_channels", shape.outChannels),
        ("weights_width", kernels.2), ("weights_height", kernels.1), ("stride", shape.stride)] ∧
      ∃ padding, shape.padding = some padding ∧ PadAgrees dim "pad_top" padding.1 ∧
        PadAgrees dim "pad_left" padding.2
  | .matmul shape =>
    kernel = "matmul" ∧ wirePrecision shape.precision = config.precisionCode ∧
      shape.precision.writesAccumulators = false ∧
      DimsAgree dim [("m", shape.m), ("k", shape.k), ("n", shape.n)]
  | .pooling shape =>
    kernel = "pooling" ∧ some (wirePoolingPrecision shape.precision) = config.precisionCode ∧
      DimsAgree dim [("input_width", shape.inputWidth), ("input_height", shape.inputHeight),
        ("channels", shape.inputChannels), ("kernel_width", shape.kernelWidth),
        ("kernel_height", shape.kernelHeight), ("stride_x", shape.strideX),
        ("stride_y", shape.strideY)] ∧
      PadAgrees dim "pad_left" shape.padLeft ∧ PadAgrees dim "pad_right" shape.padRight ∧
      PadAgrees dim "pad_top" shape.padTop ∧ PadAgrees dim "pad_bottom" shape.padBottom ∧
      PoolingExecutable.deriveOutput false shape = .ok shape
  | .elementwiseBinary shape =>
    kernel = "elementwise_binary" ∧
      DimsAgree dim [("width", shape.geometry.width), ("height", shape.geometry.height),
        ("channels", shape.geometry.channels)]
  | .elementwiseUnary _ => kernel = "elementwise_unary"
  | .elementwiseLut _ => kernel = "elementwise_lut"

/-! ### The same cube -/

theorem toU64_natCast {n : Nat} (h : n < 2 ^ 64) : toU64 (n : Int) = n := by
  unfold toU64
  omega

theorem cube_desc {kind elementBytes : Nat} {width height channels : Int} {out : Cube}
    (h : cube kind elementBytes width height channels = some out) :
    out.desc = { kind, elementBytes, width := toU64 width, height := toU64 height
                 channels := toU64 channels } := by
  unfold cube at h
  dsimp only at h
  split at h
  · exact (Option.some.inj h) ▸ rfl
  · cases h

/-- The geometry behind a cube of the compiler's is the driver's at the same extents. -/
theorem cube_geometry {code elementBytes width height channels : Nat} {kind : CubeKind} {out : Cube}
    {g : CubeGeometry} (hkind : cubeKind code = .ok kind)
    (hcube : cube code elementBytes width height channels = some out)
    (hwidth : width < 2 ^ 64) (hheight : height < 2 ^ 64) (hchannels : channels < 2 ^ 64)
    (hof : cubeOf out.desc = .ok g) : cubeGeometry kind elementBytes width height channels = .ok g := by
  rw [cube_desc hcube, toU64_natCast hwidth, toU64_natCast hheight, toU64_natCast hchannels] at hof
  unfold cubeOf at hof
  simp only [bind_ok, planner_ok, narrow_ok, hkind] at hof
  obtain ⟨_, hsame, _, ⟨-, rfl⟩, _, ⟨-, rfl⟩, _, ⟨-, rfl⟩, hgeometry⟩ := hof
  rw [Except.ok.inj hsame]
  exact hgeometry

theorem orInvalid_ok {ε α : Type} {x : Except ε α} {a : α} : orInvalid x = .ok a ↔ x = .ok a :=
  mapError_ok

theorem elementwiseCube_ok {width height channels elementBytes : Nat} {g : CubeGeometry}
    (h : Driver.elementwiseCube width height channels elementBytes = .ok g) :
    cubeGeometry .elementwise elementBytes width height channels = .ok g := by
  unfold Driver.elementwiseCube at h
  simp only [bind_ok, orInvalid_ok, pure_ok] at h
  obtain ⟨_, hg, _, -, -, -, rfl⟩ := h
  exact hg

theorem inputElementBytes_wire {precision : Precision} {code : Nat}
    (h : wirePrecision precision = some code) : inputElementBytes code = precision.elementBytes := by
  cases precision <;> simp only [wirePrecision, Option.some.injEq, reduceCtorEq] at h <;> subst h <;>
    simp [inputElementBytes, Precision.elementBytes, Precision.elementBits]

theorem outputElementBytes_wire {precision : Precision} {code : Nat}
    (h : wirePrecision precision = some code) :
    outputElementBytes code = precision.outputElementBytes := by
  cases precision <;> simp only [wirePrecision, Option.some.injEq, reduceCtorEq] at h <;> subst h <;>
    simp [outputElementBytes, Precision.outputElementBytes, int8AccumulatorCode]

/-- An accepted matmul writes elements as wide as it reads. -/
theorem elementBytes_of_narrow {precision : Precision} {code : Nat}
    (hwire : wirePrecision precision = some code) (h : precision.writesAccumulators = false) :
    precision.outputElementBytes = precision.elementBytes := by
  cases precision <;>
    simp [wirePrecision, Precision.writesAccumulators, Precision.outputElementBytes,
      Precision.elementBytes, Precision.elementBits] at hwire h ⊢

/-! ### The extents of a convolution -/

/-- What the planner keeps of a descriptor with explicit padding. -/
theorem planConvChecked_ok {desc : ConvDesc} {plan : ConvPlan} {top left : Nat}
    (htop : desc.padTop = top) (hleft : desc.padLeft = left) (h : planConvChecked desc = .ok plan) :
    plan.shape.width = desc.width ∧ plan.shape.height = desc.height ∧
      plan.shape.stride = desc.stride ∧ plan.shape.padding = some (top, left) ∧
      plan.kernels = (desc.kernelHeight, desc.kernelWidth) := by
  unfold planConvChecked at h
  simp only [bind_ok, planner_ok] at h
  obtain ⟨precision, -, base, hbase, shape, hpadded, activation, -, active, hactive, programmed,
    hdepthwise, kernels, hkernels, hplan⟩ := h
  unfold baseShape at hbase
  simp only [bind_ok, narrow_ok] at hbase
  obtain ⟨_, ⟨-, rfl⟩, _, ⟨-, rfl⟩, _, ⟨-, rfl⟩, _, ⟨-, rfl⟩, _, ⟨-, rfl⟩, hbase⟩ := hbase
  obtain ⟨-, -, -, -, -, -, -, -, rfl⟩ := Shape.tryWithPrecision_ok hbase
  unfold padded at hpadded
  rw [htop, hleft, if_neg (by omega), if_pos (by omega)] at hpadded
  simp only [planner_ok, bind_ok, pad, refuseUnless_ok, pure_ok, exists_const] at hpadded
  obtain ⟨_, ⟨-, rfl⟩, _, ⟨-, rfl⟩, hpadded⟩ := hpadded
  obtain ⟨-, rfl⟩ := Shape.tryWithPadding_ok hpadded
  obtain ⟨-, rfl⟩ := Shape.tryWithActivation_ok hactive
  have hfields : programmed.width = desc.width ∧ programmed.height = desc.height ∧
      programmed.stride = desc.stride ∧ programmed.padding = some (top, left) := by
    unfold withDepthwise at hdepthwise
    split_ifs at hdepthwise
    · obtain ⟨-, -, -, rfl⟩ := Shape.tryWithDepthwise_ok hdepthwise
      exact ⟨rfl, rfl, rfl, rfl⟩
    · obtain rfl := Except.ok.inj hdepthwise
      exact ⟨rfl, rfl, rfl, rfl⟩
  unfold kernelsOf at hkernels
  simp only [bind_ok, narrow_ok, pure_ok] at hkernels
  obtain ⟨_, ⟨-, rfl⟩, _, ⟨-, rfl⟩, rfl⟩ := hkernels
  have hplanned := planned_of_tryNew hplan
  obtain ⟨hwidth, hheight, hstride, hpadding⟩ := hfields
  rw [hplanned.shape_eq, hplanned.kernels_eq]
  exact ⟨hwidth, hheight, hstride, hpadding, rfl⟩

/-- The output extents read four fields of a shape. -/
theorem outputExtents_eq {s s' : Shape} {kernels : Kernels} (hwidth : s.width = s'.width)
    (hheight : s.height = s'.height) (hstride : s.stride = s'.stride)
    (hpadding : s.padding = s'.padding) : s.outputWidth kernels = s'.outputWidth kernels ∧
      s.outputHeight kernels = s'.outputHeight kernels := by
  simp only [Shape.outputWidth, Shape.outputHeight, Shape.kernelProgramming, hwidth, hheight, hstride,
    hpadding, and_self]

theorem outputExtents_lt {shape : Shape} {kernels : Kernels} {padding : Padding}
    (hpadding : shape.padding = some padding) (hwidth : shape.width < 2 ^ 32)
    (hheight : shape.height < 2 ^ 32) (htop : padding.1 < 2 ^ 32) (hleft : padding.2 < 2 ^ 32) :
    shape.outputWidth kernels < 2 ^ 64 ∧ shape.outputHeight kernels < 2 ^ 64 := by
  simp only [Shape.outputWidth, Shape.outputHeight, Shape.kernelProgramming, Conv.kernelProgramming,
    hpadding, Option.getD_some]
  have h1 := Nat.div_le_self (shape.width + 2 * padding.2 - kernels.2) shape.stride
  have h2 := Nat.div_le_self (shape.height + 2 * padding.1 - kernels.1) shape.stride
  omega

/-- The dimensions of a convolution, as the compiler holds them. -/
def dimsOf (shape : Shape) (kernels : Kernels) : ConvDims :=
  { width := shape.width, height := shape.height, cin := shape.inChannels, cout := shape.outChannels
    kw := kernels.2, kh := kernels.1, stride := shape.stride }

/-- The description of a convolution is empty, or that of the shape the driver resolves. -/
theorem describeConv_agrees {config : Config} {dim : String → Option Int} {geometry : Geometry}
    {shape : Shape} {kernels : Kernels} {epilogueAdd : Bool}
    (hagrees : Agrees "conv2d" config dim (.conv2d shape kernels epilogueAdd))
    (h : describeConv config dim = some geometry) :
    geometry = { inputs := [], output := none } ∨ ∃ code, wirePrecision shape.precision = some code ∧
      geometry = convGeometry (dimsOf shape kernels) code shape.depthwise epilogueAdd
        (shape.outputWidth kernels) (shape.outputHeight kernels) := by
  obtain ⟨-, hprecision, hdepthwise, hadd, hdims, padding, hpadding, htop, hleft⟩ := hagrees
  simp only [dimsAgree_cons, dimsAgree_nil, and_true] at hdims
  obtain ⟨⟨hw, hw_lt⟩, ⟨hh, hh_lt⟩, ⟨hcin, -⟩, ⟨hcout, -⟩, ⟨hkw, hkw_lt⟩, ⟨hkh, hkh_lt⟩, hs, hs_lt⟩ := hdims
  have hconv : convDims dim = some (dimsOf shape kernels) := by
    unfold convDims
    rw [hw, hh, hcin, hcout, hkw, hkh, hs]
    rfl
  unfold describeConv at h
  simp only [Option.bind_eq_bind, Option.bind_eq_some_iff, hconv] at h
  obtain ⟨code, hcode, _, hsome, h⟩ := h
  obtain rfl := Option.some.inj hsome
  split at h
  · exact .inl (Option.some.inj h).symm
  · rename_i plan hplan
    refine .inr ⟨code, hprecision.trans hcode, ?_⟩
    obtain ⟨hwidth, hheight, hstride, hpad, hkernels⟩ := planConvChecked_ok htop.1 hleft.1 hplan
    simp only [convDesc, dimsOf] at hwidth hheight hstride hkernels
    rw [toU64_natCast (by omega)] at hwidth hheight hstride
    rw [toU64_natCast (by omega), toU64_natCast (by omega)] at hkernels
    obtain ⟨hout, hout'⟩ := @outputExtents_eq _ _ kernels hwidth hheight hstride
      (hpad.trans hpadding.symm)
    rw [hkernels, hout, hout', hdepthwise, hadd] at h
    exact (Option.some.inj h).symm

/-! ### The two sides of an edge -/

/-- The compiler's cubes are the driver's: where both have one, the geometries are equal. -/
structure SidesAgree (u : ResolvedShape) (geometry : Geometry) : Prop where
  input : ∀ {b input g g'}, geometry.inputs[b]? = some (some input) → cubeOf input.desc = .ok g →
    u.inputCube b = .ok (some g') → g' = g
  output : ∀ {fannedOut output g g'}, geometry.output = some output → cubeOf output.desc = .ok g →
    u.publishedCube fannedOut = .ok (some g') → g' = g

theorem sidesAgree_empty (u : ResolvedShape) : SidesAgree u { inputs := [], output := none } where
  input h := by simp at h
  output h := nomatch h

theorem ifExact_some {out : Option Cube} {c : Cube} (h : ifExact out = some c) : out = some c :=
  Option.eq_some_of_filter_eq_some h

theorem ifWholeAtom_some {out : Option Cube} {c : Cube} (h : ifWholeAtom out = some c) : out = some c :=
  Option.eq_some_of_filter_eq_some h

/-- Two runs of the geometry at the same extents. -/
theorem cube_same {code elementBytes elementBytes' width height channels : Nat} {kind : CubeKind}
    {out : Cube} {g g' : CubeGeometry} (hkind : cubeKind code = .ok kind)
    (hbytes : elementBytes = elementBytes')
    (hcube : cube code elementBytes width height channels = some out)
    (hwidth : width < 2 ^ 64) (hheight : height < 2 ^ 64) (hchannels : channels < 2 ^ 64)
    (hof : cubeOf out.desc = .ok g)
    (hrun : cubeGeometry kind elementBytes' width height channels = .ok g') : g' = g := by
  subst hbytes
  have h := cube_geometry hkind hcube hwidth hheight hchannels hof
  exact Except.ok.inj (hrun.symm.trans h)

section

variable {config : Config} {dim : String → Option Int} {geometry : Geometry}

theorem matmul_sides {shape : Fc.Shape} (hagrees : Agrees "matmul" config dim (.matmul shape))
    (h : describeMatmul config dim = some geometry) : SidesAgree (.matmul shape) geometry := by
  obtain ⟨-, hprecision, hnarrow, hdims⟩ := hagrees
  simp only [dimsAgree_cons, dimsAgree_nil, and_true] at hdims
  obtain ⟨⟨hm, hm_lt⟩, ⟨hk, hk_lt⟩, hn, hn_lt⟩ := hdims
  unfold describeMatmul at h
  simp only [hm, hk, hn, Option.bind_eq_bind, Option.bind_eq_some_iff, Option.some.injEq] at h
  obtain ⟨code, hcode, _, rfl, _, rfl, _, rfl, h⟩ := h
  obtain rfl := Option.some.inj h
  rw [hcode] at hprecision
  constructor
  · intro b input g g' hreads hof hrun
    rcases b with _ | _ | _ | b <;> simp at hreads
    obtain ⟨hk_one, hcube⟩ := hreads
    simp only [ResolvedShape.inputCube, bind_ok, orInvalid_ok, pure_ok] at hrun
    obtain ⟨g'', hgeometry, hsome⟩ := hrun
    rw [if_pos hk_one] at hsome
    obtain rfl := Option.some.inj hsome
    exact cube_same rfl (inputElementBytes_wire hprecision) hcube (by omega) (by decide) (by omega) hof
      hgeometry
  · intro fannedOut output g g' hout hof hrun
    have hcube := ifWholeAtom_some hout
    simp only [ResolvedShape.publishedCube, bind_ok, orInvalid_ok, pure_ok] at hrun
    obtain ⟨g'', hgeometry, hsome⟩ := hrun
    split_ifs at hsome
    obtain rfl := Option.some.inj hsome
    have hbytes := (outputElementBytes_wire hprecision).trans (elementBytes_of_narrow hprecision hnarrow)
    exact cube_same rfl hbytes hcube (by omega) (by decide) (by omega) hof hgeometry

/-- The output extent of a pool, computed at both ends. -/
theorem poolExtent_eq {input before after kernel stride n : Nat} {extent : Int}
    (h : poolExtent input before after kernel stride = some extent)
    (hrun : floorOutputExtent input kernel stride before after = .ok n) :
    extent = n ∧ n < 2 ^ 64 := by
  unfold poolExtent at h
  dsimp only at h
  split_ifs at h with hguard
  obtain rfl := Option.some.inj h
  unfold floorOutputExtent at hrun
  simp only [bind_ok, unlessErr_ok, pure_ok, exists_const] at hrun
  obtain ⟨-, hlt, hle, rfl⟩ := hrun
  have hsub : ((input : Int) + before + after - kernel) = ((input + before + after - kernel : Nat) : Int) := by
    omega
  have hdiv := Nat.div_le_self (input + before + after - kernel) stride
  refine ⟨?_, by omega⟩
  show ((input : Int) + before + after - kernel) / stride + 1 = _
  rw [hsub]
  push_cast
  rfl

/-- What deriving the output extents of a pool leaves as it is has the derived ones. -/
theorem derived_extents {static : Bool} {shape : Pooling.PoolingShape}
    (h : PoolingExecutable.deriveOutput static shape = .ok shape) :
    floorOutputExtent shape.inputWidth shape.kernelWidth shape.strideX shape.padLeft shape.padRight =
        .ok shape.outputWidth ∧
      floorOutputExtent shape.inputHeight shape.kernelHeight shape.strideY shape.padTop
        shape.padBottom = .ok shape.outputHeight := by
  unfold PoolingExecutable.deriveOutput at h
  simp only [bind_ok, unlessErr_ok, exists_const, pure_ok] at h
  obtain ⟨width, hwidth, height, hheight, -, hshape⟩ := h
  rw [← hshape]
  exact ⟨hwidth, hheight⟩

theorem pooling_sides {shape : Pooling.PoolingShape} (hagrees : Agrees "pooling" config dim (.pooling shape))
    (h : describePooling config dim = some geometry) : SidesAgree (.pooling shape) geometry := by
  obtain ⟨-, hprecision, hdims, hleft, hright, htop, hbottom, hderived⟩ := hagrees
  simp only [dimsAgree_cons, dimsAgree_nil, and_true] at hdims
  obtain ⟨⟨hw, hw_lt⟩, ⟨hh, hh_lt⟩, ⟨hc, hc_lt⟩, ⟨hkw, -⟩, ⟨hkh, -⟩, ⟨hsx, -⟩, hsy, -⟩ := hdims
  unfold describePooling at h
  simp only [hw, hh, hc, hkw, hkh, hsx, hsy, hleft.1, hright.1, htop.1, hbottom.1,
    Option.bind_eq_bind, Option.bind_eq_some_iff, Option.some.injEq] at h
  obtain ⟨code, hcode, _, rfl, _, rfl, _, rfl, _, rfl, _, rfl, _, rfl, _, rfl, ow, how, oh, hoh, h⟩ := h
  obtain rfl := Option.some.inj h
  have hbytes : inputElementBytes code = shape.precision.elementBytes := by
    rw [hcode] at hprecision
    obtain rfl := Option.some.inj hprecision
    cases shape.precision <;> rfl
  constructor
  · intro b input g g' hreads hof hrun
    rcases b with _ | _ | b <;> simp at hreads
    simp only [ResolvedShape.inputCube, bind_ok, orInvalid_ok, pure_ok, Option.some.injEq] at hrun
    obtain ⟨g'', hgeometry, rfl⟩ := hrun
    exact cube_same rfl hbytes hreads (by omega) (by omega) (by omega) hof hgeometry
  · intro fannedOut output g g' hout hof hrun
    have hcube := ifExact_some hout
    simp only [ResolvedShape.publishedCube, bind_ok, orInvalid_ok, pure_ok] at hrun
    obtain ⟨g'', hgeometry, hsome⟩ := hrun
    split_ifs at hsome
    obtain rfl := Option.some.inj hsome
    obtain ⟨hwidth, hheight⟩ := derived_extents hderived
    obtain ⟨rfl, hwidth_lt⟩ := poolExtent_eq how hwidth
    obtain ⟨rfl, hheight_lt⟩ := poolExtent_eq hoh hheight
    exact cube_same rfl hbytes hcube hwidth_lt hheight_lt (by omega) hof hgeometry

theorem elementwise_sides {shape : EwAddShape}
    (hagrees : Agrees "elementwise_binary" config dim (.elementwiseBinary shape))
    (h : describeElementwise dim = some geometry) : SidesAgree (.elementwiseBinary shape) geometry := by
  obtain ⟨-, hdims⟩ := hagrees
  simp only [dimsAgree_cons, dimsAgree_nil, and_true] at hdims
  obtain ⟨⟨hw, hw_lt⟩, ⟨hh, hh_lt⟩, hc, hc_lt⟩ := hdims
  unfold describeElementwise at h
  simp only [hw, hh, hc, Option.bind_eq_bind, Option.bind_eq_some_iff, Option.some.injEq] at h
  obtain ⟨_, rfl, _, rfl, _, rfl, h⟩ := h
  obtain rfl := Option.some.inj h
  have hsame : ∀ {out : Cube} {g g' : CubeGeometry},
      cube elementwiseCube 2 shape.geometry.width shape.geometry.height shape.geometry.channels =
        some out → cubeOf out.desc = .ok g → shape.geometry.cube 2 = .ok g' → g' = g :=
    fun hcube hof hrun => cube_same rfl rfl hcube (by omega) (by omega) (by omega) hof (elementwiseCube_ok hrun)
  constructor
  · intro b input g g' hreads hof hrun
    rcases b with _ | _ | _ | b <;> simp at hreads
    · obtain ⟨g'', hgeometry, hsome⟩ := map_ok.mp hrun
      obtain rfl := Option.some.inj hsome
      exact hsame hreads hof hgeometry
    · obtain ⟨g'', hgeometry, hsome⟩ := map_ok.mp hrun
      obtain rfl := Option.some.inj hsome
      exact hsame hreads hof hgeometry
  · intro fannedOut output g g' hout hof hrun
    simp only [ResolvedShape.publishedCube, bind_ok, pure_ok] at hrun
    obtain ⟨g'', hgeometry, hsome⟩ := hrun
    split_ifs at hsome
    obtain rfl := Option.some.inj hsome
    exact hsame (ifExact_some hout) hof hgeometry

theorem conv_sides {shape : Shape} {kernels : Kernels} {epilogueAdd : Bool}
    (hagrees : Agrees "conv2d" config dim (.conv2d shape kernels epilogueAdd))
    (h : describeConv config dim = some geometry) :
    SidesAgree (.conv2d shape kernels epilogueAdd) geometry := by
  rcases describeConv_agrees hagrees h with rfl | ⟨code, hcode, rfl⟩
  · exact sidesAgree_empty _
  obtain ⟨-, -, -, -, hdims, padding, hpadding, htop, hleft⟩ := hagrees
  simp only [dimsAgree_cons, dimsAgree_nil, and_true] at hdims
  obtain ⟨⟨-, hw⟩, ⟨-, hh⟩, ⟨-, hcin⟩, ⟨-, hcout⟩, -⟩ := hdims
  obtain ⟨hout_width, hout_height⟩ := @outputExtents_lt _ kernels _ hpadding hw hh htop.2 hleft.2
  have hinput : ∀ {input : Cube} {g g' : CubeGeometry},
      (if (dimsOf shape kernels).cin > maxDenseChannels then
        cube convCube (inputElementBytes code) (dimsOf shape kernels).width (dimsOf shape kernels).height
          (dimsOf shape kernels).cin else none) = some input →
      cubeOf input.desc = .ok g →
      (ResolvedShape.conv2d shape kernels epilogueAdd).inputCube 0 = .ok (some g') → g' = g := by
    intro input g g' hcube hof hrun
    split_ifs at hcube
    simp only [ResolvedShape.inputCube, bind_ok, orInvalid_ok, pure_ok] at hrun
    obtain ⟨g'', hgeometry, hsome⟩ := hrun
    split_ifs at hsome
    obtain rfl := Option.some.inj hsome
    exact cube_same rfl (inputElementBytes_wire hcode) hcube (by omega) (by omega) (by omega) hof
      hgeometry
  have hsum : ∀ {out : Cube} {g g' : CubeGeometry},
      cube elementwiseCube 2 (shape.outputWidth kernels) (shape.outputHeight kernels)
        (dimsOf shape kernels).cout = some out → cubeOf out.desc = .ok g →
      Driver.elementwiseCube (shape.outputWidth kernels) (shape.outputHeight kernels) shape.outChannels
        2 = .ok g' → g' = g := fun hcube hof hrun =>
    cube_same rfl rfl hcube hout_width hout_height (by omega) hof (elementwiseCube_ok hrun)
  constructor
  · intro b input g g' hreads hof hrun
    cases epilogueAdd with
    | true =>
      rcases b with _ | _ | _ | _ | b <;>
        simp only [convGeometry, if_true, List.getElem?_cons_zero, List.getElem?_cons_succ,
          List.getElem?_nil, Option.some.injEq, reduceCtorEq] at hreads
      · exact hinput hreads hof hrun
      · simp only [ResolvedShape.inputCube, bind_ok, pure_ok, Option.some.injEq] at hrun
        obtain ⟨-, -, g'', hgeometry, rfl⟩ := hrun
        exact hsum hreads hof hgeometry
    | false =>
      rcases b with _ | _ | _ | b <;>
        simp only [convGeometry, Bool.false_eq_true, if_false, List.getElem?_cons_zero,
          List.getElem?_cons_succ, List.getElem?_nil, Option.some.injEq, reduceCtorEq] at hreads
      exact hinput hreads hof hrun
  · intro fannedOut output g g' hout hof hrun
    cases epilogueAdd with
    | true =>
      simp only [convGeometry, if_true] at hout
      simp only [ResolvedShape.publishedCube, if_true, bind_ok, orInvalid_ok, pure_ok] at hrun
      obtain ⟨own, -, -, -, g'', hgeometry, hsome⟩ := hrun
      split_ifs at hsome
      obtain rfl := Option.some.inj hsome
      exact hsum (ifExact_some hout) hof hgeometry
    | false =>
      simp only [convGeometry, Bool.false_eq_true, if_false] at hout
      split_ifs at hout
      simp only [ResolvedShape.publishedCube, Bool.false_eq_true, if_false, bind_ok, orInvalid_ok,
        pure_ok] at hrun
      obtain ⟨g'', hgeometry, hsome⟩ := hrun
      split_ifs at hsome
      obtain rfl := Option.some.inj hsome
      exact cube_same rfl (outputElementBytes_wire hcode) (ifWholeAtom_some hout) hout_width hout_height
        (by omega) hof hgeometry

/-- **The two descriptions agree.** -/
theorem describe_sides {kernel : String} {u : ResolvedShape} (hagrees : Agrees kernel config dim u)
    (h : describe kernel config dim = some geometry) : SidesAgree u geometry := by
  cases u with
  | conv2d shape kernels epilogueAdd =>
    obtain rfl := hagrees.1
    exact conv_sides hagrees h
  | matmul shape =>
    obtain rfl := hagrees.1
    exact matmul_sides hagrees h
  | pooling shape =>
    obtain rfl := hagrees.1
    exact pooling_sides hagrees h
  | elementwiseBinary shape =>
    obtain rfl := hagrees.1
    exact elementwise_sides hagrees h
  | elementwiseUnary shape =>
    subst hagrees
    cases h
  | elementwiseLut shape =>
    subst hagrees
    cases h

end

/-- A site and the dispatch the driver resolves for it read the same dimension values. -/
def Site.Resolves (m : Module) (site : Site) (u : ResolvedShape) : Prop :=
  Agrees site.kernel site.config (m.dimension site.config site.dispatch.arguments) u

theorem site_sides {m : Module} {o : Nat} {site : Site} {u : ResolvedShape} (hsite : m.site o = some site)
    (hagrees : site.Resolves m u) : SidesAgree u site.geometry := by
  rw [Module.site_geometry hsite]
  cases h : describe site.kernel site.config (m.dimension site.config site.dispatch.arguments) with
  | none => exact sidesAgree_empty u
  | some geometry => exact describe_sides hagrees h

/-! ### Recording the consumer -/

variable {ω : Type}

/-- A lookup fails only on a geometry that reads no cube, or on a cube that is not identical. -/
theorem chainableCube_error {ops : List (Recorded ω)} {binding : Binding} {consumer : CubeGeometry}
    {declared : Bool} (h : chainableCube ops binding consumer declared = .error .internal) :
    consumer.canChain ≠ .ok () ∨ ∃ i record cube want,
      dmaRange binding.buffer binding.offset (consumer.pixelCount * consumer.bytesPerPixel) =
        some want ∧ lastWriter ops want = some i ∧ ops[i]? = some (.dispatch record) ∧
        record.outputCube = some cube ∧ chainIdentity cube.geometry consumer ≠ .ok () := by
  unfold chainableCube at h
  split_ifs at h
  split at h
  · rename_i hchain
    exact .inl (by rw [hchain]; exact fun h => nomatch h)
  · split at h
    · cases h
    · rename_i want hwant
      split at h
      · rename_i i record hfound
        obtain ⟨i', hi', hop⟩ := Option.bind_eq_some_iff.mp hfound
        obtain ⟨op, hop', heq⟩ := Option.map_eq_some_iff.mp hop
        obtain ⟨rfl, rfl⟩ := Prod.mk.inj heq
        split at h
        · cases h
        · rename_i cube hcube
          split_ifs at h
          split at h
          · rename_i hidentity
            exact .inr ⟨_, record, cube, want, hwant, hi', hop', hcube, by
              rw [hidentity]
              exact fun h => nomatch h⟩
          · cases h
      · cases h

/-- The dispatch found for a binding is one recorded for the producer: the cube it publishes, if any, is
the producer's. -/
def FindsProducer (ops : List (Recorded ω)) (binding : Binding) (consumer : CubeGeometry)
    (producer : ResolvedShape) : Prop :=
  ∀ i record cube want,
    dmaRange binding.buffer binding.offset (consumer.pixelCount * consumer.bytesPerPixel) = some want →
    lastWriter ops want = some i → ops[i]? = some (.dispatch record) → record.outputCube = some cube →
    ∃ fannedOut, producer.publishedCube fannedOut = .ok (some cube.geometry)

/-- **A declared edge chains.** Where the compiler marks an edge packed and the driver resolves both
dispatches to the same dimension values, the geometry it computes for the consumer's binding can chain
and is identical to the one it publishes for the producer, and looking the producer's cube up never
fails. -/
theorem declared_edge_chains {m : Module} {producer consumer : Site} {b : Nat} {output input : Cube}
    {p c : ResolvedShape} (hconsumer : m.site consumer.op = some consumer)
    (hedge : m.Edge consumer b producer output input) (hp : producer.Resolves m p)
    (hc : consumer.Resolves m c) {read : CubeGeometry} (hread : c.inputCube b = .ok (some read)) :
    read.canChain = .ok () ∧
      (∀ fannedOut published, p.publishedCube fannedOut = .ok (some published) →
        chainIdentity published read = .ok ()) ∧
      ∀ (ω : Type) (ops : List (Recorded ω)) (binding : Binding) (declared : Bool),
        FindsProducer ops binding read p →
          chainableCube ops binding read declared ≠ .error .internal := by
  obtain ⟨g, g', hg, hg', hidentity⟩ := chainIdentityChecked_ok.mp hedge.identity
  obtain rfl := (site_sides hconsumer hc).input hedge.reads hg' hread
  have hchain : read.canChain = .ok () := canChain_ok.mpr (chainIdentity_ok.mp hidentity).1
  have hpublished : ∀ fannedOut published, p.publishedCube fannedOut = .ok (some published) →
      chainIdentity published read = .ok () := by
    intro fannedOut published hrun
    obtain rfl := (site_sides hedge.laidOut hp).output hedge.publishes hg hrun
    exact hidentity
  refine ⟨hchain, hpublished, fun ω ops binding declared hfinds herror => ?_⟩
  rcases chainableCube_error herror with hne | ⟨i, record, cube, want, hwant, hi, hop, hcube, hne⟩
  · exact hne hchain
  · obtain ⟨fannedOut, hrun⟩ := hfinds i record cube want hwant hi hop hcube
    exact hne (hpublished fannedOut _ hrun)

/-! ### The residual adds -/

/-- The cube of either add, as the compiler describes it and as the driver computes it. -/
def addCube : Cube where
  desc := { kind := elementwiseCube, elementBytes := 2, width := 4, height := 4, channels := 16 }
  wholeAtom := true
  exact := true

def addGeometry : CubeGeometry :=
  { pixelCount := 16, surfacePixelCount := 16, bytesPerPixel := 32, packedBytesPerPixel := 32 }

def addSite (op : Nat) (arguments : List Value) : Site where
  op := op
  dispatch := { target := some (Module.addTarget true), workload := [], arguments, others := []
                tied := [], results := 1 }
  config := (Module.addTarget true).config
  kernel := "elementwise_binary"
  geometry := { inputs := [some addCube, some addCube, none], output := some addCube }

theorem addSite_resolves (op : Nat) (arguments : List Value) :
    (addSite op arguments).Resolves (Module.twoAdds true) (.elementwiseBinary ⟨⟨4, 4, 16⟩, .add⟩) := by
  refine ⟨rfl, ?_⟩
  simp only [dimsAgree_cons, dimsAgree_nil, and_true]
  exact ⟨⟨rfl, by decide⟩, ⟨rfl, by decide⟩, rfl, by decide⟩

/-- The second add, recorded after the first, reads its cube. -/
theorem twoAdds_chains : addGeometry.canChain = .ok () ∧
    (∀ fannedOut published, (ResolvedShape.elementwiseBinary ⟨⟨4, 4, 16⟩, .add⟩).publishedCube fannedOut =
      .ok (some published) → chainIdentity published addGeometry = .ok ()) ∧
    ∀ (ω : Type) (ops : List (Recorded ω)) (binding : Binding) (declared : Bool),
      FindsProducer ops binding addGeometry (.elementwiseBinary ⟨⟨4, 4, 16⟩, .add⟩) →
        chainableCube ops binding addGeometry declared ≠ .error .internal := by
  have hproducer : (Module.twoAdds true).site 0 =
      some (addSite 0 [.argument 0, .argument 1, .argument 2]) := by decide
  have hconsumer : (Module.twoAdds true).site 1 =
      some (addSite 1 [.argument 0, .result 0 0, .argument 1]) := by decide
  have hedge : (Module.twoAdds true).Edge (addSite 1 [.argument 0, .result 0 0, .argument 1]) 0
      (addSite 0 [.argument 0, .argument 1, .argument 2]) addCube addCube :=
    ⟨rfl, ⟨.result 0 0, by decide, by decide⟩, by decide, hproducer, rfl, by decide⟩
  exact declared_edge_chains hconsumer hedge (addSite_resolves 0 _) (addSite_resolves 1 _) (by decide)

end IreeRocket.Plugin
