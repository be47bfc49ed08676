import IreeRocket.Plugin.TargetConfig

/-!
# Serializing an executable

`serializeExecutable` reads the target config of a variant by its kernel, checks its one export against
it, and writes the table. `Written` is what a written table keeps of the checks: each name is one the
schema knows, a dimension is zero exactly where it is listed, and no list repeats a member.
-/

namespace IreeRocket.Backend

open Conv hiding Precision Activation
open Schema

/-! ### The serializer -/

/-- `ExecutableExportOp`, with the push constants its pipeline layout declares. -/
structure ExecutableExport where
  name : String
  ordinal : Option Int
  constants : Int

/-- `ExecutableVariantOp`. -/
structure ExecutableVariant where
  format : String
  configuration : Option DictionaryAttr
  exports : List ExecutableExport

structure ExportDef where
  name : String
  kernel : KernelDef
  deriving DecidableEq, Repr

structure ExecutableDef where
  exports : List ExportDef
  deriving DecidableEq, Repr

/-- The kernel a config names, a convolution where it names none. -/
def kernelOf (config : Option DictionaryAttr) : Except Failure String :=
  match config.bind fun config => config.get "kernel" with
  | none => .ok "conv2d"
  | some attr => okOr attr.string?
      (.diagnostic "rocket executable target 'kernel' must be a string")

def supportedKernels : List String :=
  ["conv2d", "fully_connected", "pooling", "matmul", "elementwise_unary", "elementwise_lut",
    "elementwise_binary"]

/-- The table a config is written to, by its kernel. -/
def buildKernelFromTarget (config : Option DictionaryAttr) : String → Except Failure KernelDef
  | "fully_connected" => .fullyConnected <$> buildRocketFullyConnectedConfigFromTarget config
  | "pooling" => .pooling <$> buildRocketPoolingConfigFromTarget config
  | "matmul" => .matmul <$> buildRocketMatmulConfigFromTarget config
  | "elementwise_unary" => .elementwiseUnary <$> buildRocketElementwiseUnaryConfigFromTarget config
  | "elementwise_binary" => .elementwiseBinary <$> buildRocketElementwiseBinaryConfigFromTarget config
  | "elementwise_lut" => .elementwiseLut <$> buildRocketElementwiseLutConfigFromTarget config
  | _ => .conv2d <$> buildRocketConv2dConfigFromTarget config

def runtimeDimensionCount : KernelDef → Nat
  | .conv2d table => table.runtimeDimensions.length
  | .fullyConnected _ => 0
  | .pooling table => table.runtimeDimensions.length
  | .matmul table => table.runtimeDimensions.length
  | .elementwiseUnary table => table.runtimeDimensions.length
  | .elementwiseLut table => table.runtimeDimensions.length
  | .elementwiseBinary table => table.runtimeDimensions.length

/-- Only a convolution carries runtime quantization. -/
def runtimeQuantizationCount : KernelDef → Nat
  | .conv2d table => table.runtimeQuantization.length
  | _ => 0

def declaresTrailing : KernelDef → Bool
  | .conv2d table => table.runtimeDenseReaders || table.runtimeLayout
  | .fullyConnected _ => false
  | .pooling table => table.runtimeDenseReaders || table.runtimeLayout
  | .matmul table => table.runtimeDenseReaders || table.runtimeLayout
  | .elementwiseUnary table => table.runtimeDenseReaders || table.runtimeLayout
  | .elementwiseLut table => table.runtimeDenseReaders || table.runtimeLayout
  | .elementwiseBinary table => table.runtimeDenseReaders || table.runtimeLayout

def denseReaderCount (kernel : KernelDef) : Nat := if declaresTrailing kernel then 1 else 0

/-- The dimensions come first, then the quantization parameters, and the trailing constant last. -/
def runtimeConstantCount (kernel : KernelDef) : Nat :=
  runtimeDimensionCount kernel + runtimeQuantizationCount kernel + denseReaderCount kernel

def serializeExecutable (variant : ExecutableVariant) : Except Failure ExecutableDef := do
  unlessErr (variant.format = "rocket-flatbuffer-v1") (.diagnostic
    ("unsupported Rocket executable format '" ++ variant.format ++ "'; expected 'rocket-flatbuffer-v1'"))
  let kernel ← kernelOf variant.configuration
  unlessErr (kernel ∈ supportedKernels) (.diagnostic
    ("unsupported Rocket kernel '" ++ kernel ++ "'; expected 'conv2d', 'pooling', 'matmul', " ++
      "'elementwise_unary', 'elementwise_binary', 'elementwise_lut' or the deprecated 'fully_connected'"))
  let table ← buildKernelFromTarget variant.configuration kernel
  match variant.exports with
  | [exportOp] => do
    unlessErr (exportOp.ordinal = some 0) (.diagnostic
      "rocket-flatbuffer-v1 requires its single export to have ordinal 0")
    unlessErr (exportOp.constants = runtimeConstantCount table) (.diagnostic
      ("Rocket pipeline layout declares " ++ toString exportOp.constants ++
        " push constants, but the executable target declares " ++
        toString (runtimeDimensionCount table) ++ " runtime dimensions, " ++
        toString (runtimeQuantizationCount table) ++ " runtime quantization parameters and " ++
        toString (denseReaderCount table) ++ " dense-reader count"))
    return ⟨[⟨exportOp.name, table⟩]⟩
  | exports => .error (.diagnostic
      ("rocket-flatbuffer-v1 currently requires exactly one export per executable variant, but found " ++
        toString exports.length))

/-! ### What a list is read to -/

namespace RuntimeList

section Lists

variable {D : Type} [DecidableEq D] {list : RuntimeList D} {u : Unit}

/-- The entries name the members, each a new one. -/
theorem parseEntries_ok {seen members : List D} {entries : List (Option String)} :
    list.parseEntries seen entries = .ok members ↔
      entries.map (fun entry => entry.bind list.named) = members.map some ∧ members.Nodup ∧
        ∀ member ∈ members, member ∉ seen := by
  induction entries generalizing seen members with
  | nil =>
    simp only [parseEntries, pure_ok, List.map_nil]
    constructor
    · rintro rfl
      exact ⟨rfl, List.nodup_nil, List.forall_mem_nil _⟩
    · rintro ⟨hnames, -, -⟩
      exact (List.map_eq_nil_iff.mp hnames.symm).symm
  | cons entry entries ih =>
    simp only [parseEntries, bind_ok, okOr_ok, unlessErr_ok, exists_const, pure_ok, ih]
    constructor
    · rintro ⟨name, rfl, member, hmember, hseen, rest, ⟨hnames, hnodup, hrest⟩, rfl⟩
      refine ⟨?_, List.nodup_cons.mpr ⟨fun hmem => hrest member hmem List.mem_cons_self, hnodup⟩, ?_⟩
      · rw [List.map_cons, List.map_cons, hnames, Option.bind_some, hmember]
      · refine List.forall_mem_cons.mpr ⟨hseen, fun other hother => ?_⟩
        exact (List.ne_and_not_mem_of_not_mem_cons (hrest other hother)).2
    · rintro ⟨hnames, hnodup, hseen⟩
      cases members with
      | nil => cases hnames
      | cons member rest =>
        rw [List.map_cons, List.map_cons, List.cons.injEq] at hnames
        obtain ⟨name, rfl, hmember⟩ := Option.bind_eq_some_iff.mp hnames.1
        obtain ⟨hmem, hnodup⟩ := List.nodup_cons.mp hnodup
        obtain ⟨hhead, hrest⟩ := List.forall_mem_cons.mp hseen
        refine ⟨name, rfl, member, hmember, hhead, rest, ⟨hnames.2, hnodup, fun other hother => ?_⟩, rfl⟩
        exact List.not_mem_cons_of_ne_of_not_mem (fun heq => hmem (heq ▸ hother)) (hrest other hother)

theorem checkTemplate_ok {runtime : List D} {dimensions : List (D × String × Nat)} :
    list.checkTemplate runtime dimensions = .ok u ↔
      ∀ entry ∈ dimensions, entry.1 ∈ runtime ↔ entry.2.2 = 0 := by
  induction dimensions with
  | nil => simp [checkTemplate, pure_ok]
  | cons entry dimensions ih =>
    obtain ⟨dimension, name, value⟩ := entry
    simp only [checkTemplate, bind_ok, unlessErr_ok, exists_const, ih, List.forall_mem_cons]
    rw [← and_assoc]
    refine and_congr_left fun _ => ⟨fun h => ⟨h.1, fun hvalue => ?_⟩, fun h => ⟨h.mp, fun hmem => ?_⟩⟩
    · by_contra hmem
      exact h.2 hmem hvalue
    · exact fun hvalue => hmem (h.mpr hvalue)

end Lists

/-- How a list spells the driver's dimensions: their names, and their members in the schema. -/
structure Spelling {D : Type} (list : RuntimeList D) (R : Type) where
  nameOf : R → String
  encode : R → D
  named_iff : ∀ name d, list.named name = some d ↔ ∃ r, nameOf r = name ∧ encode r = d
  injective : encode.Injective

namespace Spelling

variable {D R : Type} [DecidableEq D] {list : RuntimeList D} (spelling : list.Spelling R) {u : Unit}

/-- A list that is read names some of the driver's dimensions, none of them twice. -/
theorem parse_ok {config : DictionaryAttr} {members : List D} :
    list.parse config = .ok members ↔
      ∃ dims : List R, dims.Nodup ∧ dims.map spelling.encode = members ∧
        list.entries config = .ok (dims.map fun d => some (spelling.nameOf d)) := by
  have hnames (entries : List (Option String)) (members : List D) :
      entries.map (fun entry => entry.bind list.named) = members.map some ↔
        ∃ dims : List R, dims.map spelling.encode = members ∧
          (dims.map fun d => some (spelling.nameOf d)) = entries := by
    induction entries generalizing members with
    | nil =>
      constructor
      · intro h
        exact ⟨[], (List.map_eq_nil_iff.mp h.symm).symm, rfl⟩
      · rintro ⟨dims, rfl, hnil⟩
        rw [List.map_eq_nil_iff.mp hnil]
        rfl
    | cons entry entries ih =>
      constructor
      · intro h
        cases members with
        | nil => cases h
        | cons member members =>
          rw [List.map_cons, List.map_cons, List.cons.injEq] at h
          obtain ⟨name, rfl, hmember⟩ := Option.bind_eq_some_iff.mp h.1
          obtain ⟨d, rfl, rfl⟩ := (spelling.named_iff name member).mp hmember
          obtain ⟨dims, rfl, rfl⟩ := (ih members).mp h.2
          exact ⟨d :: dims, rfl, rfl⟩
      · rintro ⟨dims, rfl, hentries⟩
        cases dims with
        | nil => cases hentries
        | cons d dims =>
          rw [List.map_cons, List.cons.injEq] at hentries
          obtain ⟨rfl, rfl⟩ := hentries
          rw [List.map_cons, List.map_cons, List.map_cons, List.cons.injEq]
          exact ⟨(spelling.named_iff _ _).mpr ⟨d, rfl, rfl⟩, (ih _).mpr ⟨dims, rfl, rfl⟩⟩
  unfold parse
  simp only [bind_ok, parseEntries_ok, hnames, List.not_mem_nil, not_false_eq_true, implies_true,
    and_true]
  constructor
  · rintro ⟨_, hentries, ⟨dims, rfl, rfl⟩, hnodup⟩
    exact ⟨dims, List.Nodup.of_map _ hnodup, rfl, hentries⟩
  · rintro ⟨dims, hnodup, rfl, hentries⟩
    exact ⟨_, hentries, ⟨dims, rfl, rfl⟩, hnodup.map spelling.injective⟩

/-- Checking the template leaves a dimension zero exactly where it is listed. -/
theorem checkTemplate_ok {dims all : List R} (hall : ∀ r, r ∈ all) (value : R → Nat) :
    list.checkTemplate (dims.map spelling.encode)
        (all.map fun r => (spelling.encode r, spelling.nameOf r, value r)) = .ok u ↔
      ∀ r, r ∈ dims ↔ value r = 0 := by
  rw [RuntimeList.checkTemplate_ok]
  simp only [List.forall_mem_map, List.mem_map_of_injective spelling.injective]
  exact ⟨fun h r => h r (hall r), fun h r _ => h r⟩

end Spelling

end RuntimeList

end IreeRocket.Backend
