import IreeRocket.Plugin.DeclaredEdge
import IreeRocket.Plugin.SerializedLoads

/-!
# The compiler and the driver describe one dispatch

The layout pass describes a dispatch from its target config and its constant operands. The backend writes
the same config to a table, the driver loads the table and fills it with the operands' values. A dispatch
that goes all this way (`Served`) is the same dispatch at both ends: each extent the pass reads is the one
the driver resolves (`Served.agrees`), so the cubes the pass weighs are those the driver packs and
publishes (`served_sides_agree`).
-/

namespace IreeRocket.Backend

open Driver Conv Layout Weights
open ExecutableFormat hiding decodePrecision
open Schema hiding Activation Precision PoolingMethod EwBinaryOp
open Plugin (Module Value)

/-! ### The config the passes read -/

def Attr.read? : Attr → Option Plugin.Attr
  | read attr => some attr
  | _ => none

/-- What the plugin's passes read of a config. -/
def passConfig (config : DictionaryAttr) : Plugin.Config :=
  config.entries.filterMap fun entry => entry.2.read?.map (entry.1, ·)

section Config

variable {config : DictionaryAttr} {key : String}

theorem passConfig_get : (passConfig config).get key = (config.get key).bind Attr.read? := by
  obtain ⟨entries, hunique⟩ := config
  unfold passConfig Plugin.Config.get DictionaryAttr.get
  dsimp only
  induction entries with
  | nil => rfl
  | cons entry entries ih =>
    obtain ⟨name, attr⟩ := entry
    obtain ⟨hname, hrest⟩ := List.nodup_cons.mp hunique
    by_cases hkey : key = name
    · subst hkey
      have habsent : entries.lookup key = none := by
        rw [List.lookup_eq_none_iff]
        rintro ⟨name, attr'⟩ hmem
        exact bne_iff_ne.mpr fun heq => hname (List.mem_map.mpr ⟨_, hmem, heq.symm⟩)
      rw [List.lookup_cons_self, Option.bind_some]
      cases hread : attr.read? with
      | none =>
        rw [List.filterMap_cons_none (by rw [hread]; rfl), ih hrest, habsent]
        rfl
      | some attr' =>
        rw [List.filterMap_cons_some (by rw [hread]; rfl), List.lookup_cons_self]
    · rw [List.lookup_cons, beq_false_of_ne hkey]
      dsimp only
      rw [← ih hrest]
      cases hread : attr.read? with
      | none => rw [List.filterMap_cons_none (by rw [hread]; rfl)]
      | some attr' =>
        rw [List.filterMap_cons_some (by rw [hread]; rfl), List.lookup_cons, beq_false_of_ne hkey]

theorem passConfig_string {value : String} (h : config.getString key = .ok value) :
    (passConfig config).stringAttr key = some value := by
  obtain ⟨attr, hattr, hvalue⟩ := Option.bind_eq_some_iff.mp (okOr_ok.mp h)
  unfold Plugin.Config.stringAttr
  rw [passConfig_get, hattr, Option.bind_some]
  unfold Attr.string? at hvalue
  split at hvalue <;> cases hvalue
  rfl

theorem passConfig_bool {value : Bool} (h : config.getBool key = .ok value) :
    (passConfig config).boolFlag key = value := by
  obtain ⟨attr, hattr, hvalue⟩ := Option.bind_eq_some_iff.mp (okOr_ok.mp h)
  unfold Plugin.Config.boolFlag
  rw [passConfig_get, hattr, Option.bind_some]
  unfold Attr.bool? at hvalue
  split at hvalue <;> cases hvalue
  rfl

theorem passConfig_optionalBool {value : Bool} (h : config.getOptionalBool key = .ok value) :
    (passConfig config).boolFlag key = value := by
  unfold DictionaryAttr.getOptionalBool at h
  split at h
  · rename_i habsent
    cases h
    unfold Plugin.Config.boolFlag
    rw [passConfig_get, habsent]
    rfl
  · exact passConfig_bool h

theorem passConfig_integer {value : Int} (h : (passConfig config).integerAttr key = some value) :
    config.getInt key = .ok value := by
  unfold Plugin.Config.integerAttr at h
  split at h
  · rename_i hattr
    cases h
    rw [passConfig_get] at hattr
    obtain ⟨attr, hget, hread⟩ := Option.bind_eq_some_iff.mp hattr
    refine okOr_ok.mpr (Option.bind_eq_some_iff.mpr ⟨attr, hget, ?_⟩)
    unfold Attr.read? at hread
    split at hread <;> cases hread
    rfl
  · cases h

/-- The entries of a list, absent or not. -/
theorem passConfig_array {D : Type} {list : RuntimeList D} {entries : List (Option String)}
    (h : list.entries config = .ok entries) :
    (passConfig config).arrayAttr list.key = some entries ∨
      (passConfig config).arrayAttr list.key = none ∧ entries = [] := by
  unfold RuntimeList.entries at h
  unfold Plugin.Config.arrayAttr
  rw [passConfig_get]
  split at h
  · rename_i habsent
    cases h
    rw [habsent]
    exact .inr ⟨rfl, rfl⟩
  · rename_i attr hattr
    have hread := okOr_ok.mp h
    unfold Attr.array? at hread
    split at hread <;> cases hread
    rw [hattr]
    exact .inl rfl

end Config

/-! ### The extents a pass reads -/

section Extents

variable {m : Module} {config : DictionaryAttr} {arguments : List Value}

variable (m arguments) in
/-- A list without the name does not supply the dimension. -/
theorem runtimeDimension_unlisted {names : List String} {name : String} (h : name ∉ names) (index : Nat) :
    m.runtimeDimension arguments name index (names.map some) = none := by
  induction names generalizing index with
  | nil => rfl
  | cons listed names ih =>
    obtain ⟨hne, hmem⟩ := not_or.mp (mt List.mem_cons.mpr h)
    rw [List.map_cons, Module.runtimeDimension, if_neg fun heq => hne (Option.some.inj heq).symm,
      ih hmem]

variable (m arguments) in
/-- A list with the name supplies the dimension from the operand at its place. -/
theorem runtimeDimension_listed {names : List String} (hnodup : names.Nodup) {name : String} {i : Nat}
    (h : names[i]? = some name) (index : Nat) :
    m.runtimeDimension arguments name index (names.map some) =
      some (arguments[index + i]?.bind m.constantOf) := by
  induction names generalizing index i with
  | nil => cases h
  | cons listed names ih =>
    obtain ⟨hmem, hnodup⟩ := List.nodup_cons.mp hnodup
    cases i with
    | zero =>
      obtain rfl := Option.some.inj h
      rw [List.map_cons, Module.runtimeDimension, if_pos rfl]
      rfl
    | succ i =>
      have hname : name ∈ names := List.mem_of_getElem? h
      have hne : ¬ some listed = some name := fun heq => hmem (Option.some.inj heq ▸ hname)
      rw [List.map_cons, Module.runtimeDimension, if_neg hne, ih hnodup h, Nat.add_right_comm,
        Nat.add_assoc]

theorem RuntimeList.Spelling.nameOf_injective {D R : Type} {list : RuntimeList D}
    (spelling : list.Spelling R) : spelling.nameOf.Injective := by
  intro r r' heq
  have hr := (spelling.named_iff _ _).mpr ⟨r, rfl, rfl⟩
  have hr' := (spelling.named_iff _ _).mpr ⟨r', rfl, rfl⟩
  rw [← heq] at hr'
  exact spelling.injective (Option.some.inj (hr.symm.trans hr'))

variable {D R : Type} {list : RuntimeList D} {spelling : list.Spelling R} {dims : List R}
  {value : R → Nat}

/-- The pass finds the names of the list, or no list where it names nothing. -/
theorem spelled_arrayAttr (hspelled : Spelled spelling config dims value)
    (hkey : list.key = "runtime_dimensions") :
    (passConfig config).arrayAttr "runtime_dimensions" = some ((dims.map spelling.nameOf).map some) ∨
      (passConfig config).arrayAttr "runtime_dimensions" = none ∧ dims = [] := by
  have hnames : (dims.map fun d => some (spelling.nameOf d)) = (dims.map spelling.nameOf).map some :=
    List.map_map.symm
  have harray := passConfig_array hspelled.listed
  rw [hkey, hnames] at harray
  refine harray.imp_right fun hnone => ⟨hnone.1, ?_⟩
  exact List.map_eq_nil_iff.mp (List.map_eq_nil_iff.mp hnone.2)

/-- A dimension the pass reads is the operand at its place in the list, or stated in the config. -/
theorem dimension_spelled (hspelled : Spelled spelling config dims value) (hnodup : dims.Nodup)
    (hkey : list.key = "runtime_dimensions") {r : R} {v : Int}
    (h : m.dimension (passConfig config) arguments (spelling.nameOf r) = some v) :
    (∃ i : Nat, dims[i]? = some r ∧ arguments[i]?.bind m.constantOf = some v) ∨
      r ∉ dims ∧ config.getInt (spelling.nameOf r) = .ok v := by
  have harray := spelled_arrayAttr hspelled hkey
  unfold Module.dimension at h
  by_cases hr : r ∈ dims
  · obtain ⟨i, hi⟩ := List.mem_iff_getElem?.mp hr
    rcases harray with harray | ⟨-, rfl⟩
    · have hplace : (dims.map spelling.nameOf)[i]? = some (spelling.nameOf r) := by
        rw [List.getElem?_map, hi]
        rfl
      have hlisted := runtimeDimension_listed m arguments (hnodup.map spelling.nameOf_injective) hplace 0
      rw [harray, Option.bind_some, hlisted, Nat.zero_add] at h
      exact .inl ⟨i, hi, h⟩
    · cases hr
  · have hunlisted := runtimeDimension_unlisted m arguments
      (fun hmem => hr ((List.mem_map_of_injective spelling.nameOf_injective).mp hmem)) 0
    refine .inr ⟨hr, passConfig_integer ?_⟩
    rcases harray with harray | ⟨harray, -⟩
    · rw [harray, Option.bind_some, hunlisted] at h
      exact h
    · rw [harray, Option.bind_none] at h
      exact h

/-- A name that is no dimension's is read from the config. -/
theorem dimension_unspelled (hspelled : Spelled spelling config dims value)
    (hkey : list.key = "runtime_dimensions") {name : String} (hname : ∀ r, spelling.nameOf r ≠ name) :
    m.dimension (passConfig config) arguments name = (passConfig config).integerAttr name := by
  have harray := spelled_arrayAttr hspelled hkey
  have hmem : name ∉ dims.map spelling.nameOf := by
    intro hmem
    obtain ⟨r, -, hr⟩ := List.mem_map.mp hmem
    exact hname r hr
  have hunlisted := runtimeDimension_unlisted m arguments hmem 0
  unfold Module.dimension
  rcases harray with harray | ⟨harray, -⟩
  · rw [harray, Option.bind_some, hunlisted]
  · rw [harray, Option.bind_none]

end Extents

/-! ### The extents a dispatch resolves -/

/-- The keys of the extents and the paddings. -/
def extentNames : List String :=
  ["input_width", "input_height", "input_channels", "output_channels", "weights_width", "weights_height",
    "stride", "pad_top", "pad_left", "pad_right", "pad_bottom", "channels", "kernel_width",
    "kernel_height", "stride_x", "stride_y", "m", "k", "n", "width", "height"]

/-- Each extent of a config is an integer, no bool, and each one the pass reads is a `u32`. -/
structure Extents (m : Module) (config : DictionaryAttr) (arguments : List Value) : Prop where
  integer : ∀ name ∈ extentNames, ∀ b, config.get name ≠ some (.read (.bool b))
  range : ∀ name ∈ extentNames, ∀ v, m.dimension (passConfig config) arguments name = some v →
    0 ≤ v ∧ v < 2 ^ 32

/-- The words a dispatch pushes: of a constant operand, its value. -/
structure Pushed (m : Module) (arguments : List Value) (words : List Nat) : Prop where
  small : ∀ word ∈ words, word < 2 ^ 32
  same : ∀ (i : Nat) v word, arguments[i]?.bind m.constantOf = some v → words[i]? = some word →
    word = toU32 v

theorem natCast_toU32 {v : Int} (h : 0 ≤ v ∧ v < 2 ^ 32) : (toU32 v : Int) = v := by
  unfold toU32
  omega

theorem getU32_ok {config : DictionaryAttr} {key : String} {n : Nat} :
    config.getU32 key = .ok n ↔ ∃ v, config.getInt key = .ok v ∧ toU32 v = n := by
  unfold DictionaryAttr.getU32
  simp only [bind_ok, pure_ok]

section Reads

variable {m : Module} {config : DictionaryAttr} {arguments : List Value} {words : List Nat}
  {D R T : Type} {list : RuntimeList D} {spelling : list.Spelling R} {dims : List R} {F : Fields T R}
  {t : T}

/-- An extent the pass reads is the one of the filled template. -/
theorem dimension_filled (hspelled : Spelled spelling config dims fun r => F.get r t)
    (hnodup : dims.Nodup) (hkey : list.key = "runtime_dimensions") (hextents : Extents m config arguments)
    (hpushed : Pushed m arguments words) (hlength : dims.length ≤ words.length) {r : R}
    (hname : spelling.nameOf r ∈ extentNames) {v : Int}
    (h : m.dimension (passConfig config) arguments (spelling.nameOf r) = some v) :
    v = (F.get r (F.fill dims words t) : Nat) ∧ F.get r (F.fill dims words t) < 2 ^ 32 := by
  have hrange := hextents.range _ hname v h
  have hread : F.get r (F.fill dims words t) = toU32 v := by
    rcases dimension_spelled hspelled hnodup hkey h with ⟨i, hi, hv⟩ | ⟨hr, hv⟩
    · have hlt : i < words.length := (List.getElem?_eq_some_iff.mp hi).1.trans_le hlength
      have hword := List.getElem?_eq_getElem hlt
      rw [Fields.get_fill_getElem hnodup hi hword]
      exact hpushed.same i v _ hv hword
    · rw [Fields.get_fill_of_notMem hr]
      obtain ⟨v', hv', heq⟩ := getU32_ok.mp (hspelled.stated r)
      cases hv.symm.trans hv'
      exact heq.symm
  rw [hread]
  exact ⟨(natCast_toU32 hrange).symm, toU32_lt v⟩

/-- An extent that no dispatch supplies is the config's. -/
theorem dimension_stated {value : R → Nat} (hspelled : Spelled spelling config dims value)
    (hkey : list.key = "runtime_dimensions") (hextents : Extents m config arguments) {name : String}
    (hname : name ∈ extentNames) (hunspelled : ∀ r, spelling.nameOf r ≠ name) {n : Nat}
    (hn : config.getU32 name = .ok n) {v : Int}
    (h : m.dimension (passConfig config) arguments name = some v) : v = (n : Int) ∧ n < 2 ^ 32 := by
  have hrange := hextents.range name hname v h
  rw [dimension_unspelled hspelled hkey hunspelled] at h
  obtain ⟨v', hv', rfl⟩ := getU32_ok.mp hn
  cases (passConfig_integer h).symm.trans hv'
  exact ⟨(natCast_toU32 hrange).symm, toU32_lt v⟩

/-- An integer of a config is one for the passes too. -/
theorem passConfig_integer_of {name : String}
    (hinteger : ∀ b, config.get name ≠ some (.read (.bool b))) {v : Int}
    (h : config.getInt name = .ok v) : (passConfig config).integerAttr name = some v := by
  obtain ⟨attr, hattr, hvalue⟩ := Option.bind_eq_some_iff.mp (okOr_ok.mp h)
  unfold Plugin.Config.integerAttr
  rw [passConfig_get, hattr, Option.bind_some]
  unfold Attr.int? at hvalue
  split at hvalue
  · cases hvalue
    rfl
  · exact absurd hattr (hinteger _)
  · cases hvalue

/-- A padding, stated or absent. -/
theorem pad_agrees {value : R → Nat} (hspelled : Spelled spelling config dims value)
    (hkey : list.key = "runtime_dimensions") (hextents : Extents m config arguments) {name : String}
    (hname : name ∈ extentNames) (hunspelled : ∀ r, spelling.nameOf r ≠ name) {n : Nat}
    (hn : config.getOptionalU32 name = .ok n) :
    Plugin.PadAgrees (m.dimension (passConfig config) arguments) name n := by
  have hread : m.dimension (passConfig config) arguments name = (passConfig config).integerAttr name :=
    dimension_unspelled hspelled hkey hunspelled
  unfold Plugin.PadAgrees
  unfold DictionaryAttr.getOptionalU32 at hn
  split at hn
  · rename_i habsent
    cases hn
    rw [hread]
    unfold Plugin.Config.integerAttr
    rw [passConfig_get, habsent]
    exact ⟨rfl, by decide⟩
  · obtain ⟨v, hv, -⟩ := getU32_ok.mp hn
    have hsome := hread.trans (passConfig_integer_of (hextents.integer name hname) hv)
    rw [hsome]
    exact dimension_stated hspelled hkey hextents hname hunspelled hn hsome

end Reads

/-- The chunks of the constants are the words. -/
theorem chunks_words {words : List Nat} {count : Nat}
    (h : (constantBytes words).length = count * 4) :
    count = words.length ∧ chunksExact (constantBytes words) count = words.map le32 := by
  rw [length_constantBytes] at h
  obtain rfl : words.length = count := by omega
  exact ⟨rfl, chunksExact_constantBytes words⟩

/-- The loop over the constants fills the table a shape is read off. -/
theorem TableShape.fills {S T D : Type} (K : TableShape S T D) {dims : List D} {words : List Nat} {t : T}
    {message : String} {out : S} (hlength : dims.length ≤ words.length)
    (hsmall : ∀ word ∈ words, word < 2 ^ 32)
    (h : setDimensions K.set message dims (words.map le32) (K.shapeOf t) = .ok out) :
    out = K.shapeOf (K.fields.fill dims words t) := by
  have hsplit : words.map le32 =
      (words.take dims.length).map le32 ++ (words.drop dims.length).map le32 := by
    rw [← List.map_append, List.take_append_drop]
  rw [hsplit, setDimensions_ok (by rw [List.length_take, min_eq_left hlength])
    fun word hword => hsmall word (List.mem_of_mem_take hword)] at h
  rw [← h.2]
  have hhom : (dims.zip (words.take dims.length)).foldl (fun shape entry => K.set entry.1 entry.2 shape)
      (K.shapeOf t) = K.shapeOf (K.fields.fill dims (words.take dims.length) t) :=
    List.foldl_hom K.shapeOf fun s entry => K.set_shapeOf entry.1 entry.2 s
  rw [hhom]
  unfold Fields.fill
  have hzip : dims.zip words = (dims.take (min dims.length words.length)).zip
      (words.take (min dims.length words.length)) := List.zip_eq_zip_take_min
  rw [min_eq_left hlength, List.take_length] at hzip
  rw [hzip]

/-! ### What a dispatch resolves to -/

/-- The quantization a dispatch supplies is the only thing of a convolution that is not an extent. -/
theorem resolveQuantization_ok {executable : Conv2dExecutable} {words : List Bytes} {shape out : Shape}
    (h : executable.resolveQuantization words shape = .ok out) :
    ∃ precision, Plugin.wirePrecision precision = Plugin.wirePrecision shape.precision ∧
      out = { shape with precision } := by
  unfold Conv2dExecutable.resolveQuantization at h
  split_ifs at h
  · cases h
    exact ⟨shape.precision, rfl, rfl⟩
  · split at h
    · rename_i quantization scales hprecision hscales
      simp only [bind_ok] at h
      obtain ⟨⟨quantization', scale⟩, -, h⟩ := h
      split at h
      · cases h
        exact ⟨_, by rw [hprecision]; rfl, rfl⟩
      · simp only [bind_ok, pure_ok] at h
        obtain ⟨_, -, multiplier, -, rfl⟩ := h
        exact ⟨_, by rw [hprecision]; rfl, rfl⟩
    · cases h

/-- A convolution resolves to its filled table. -/
theorem conv2d_filled {t : Conv2DDef} {dims : List RuntimeConv2dDimension}
    {params : List RuntimeConv2dQuantParam} {precision : Precision} {activation epilogue : Activation}
    {words : List Nat} (hsmall : ∀ word ∈ words, word < 2 ^ 32) {out : Shape × Kernels}
    (h : (conv2dExecutable t dims params precision activation epilogue).resolveShape
      (constantBytes words) = .ok out) :
    dims.length ≤ words.length ∧
      ∃ precision', Plugin.wirePrecision precision' = Plugin.wirePrecision precision ∧
        out = conv2dShape precision' activation (conv2dFields.fill dims words t) := by
  unfold Conv2dExecutable.resolveShape at h
  simp only [bind_ok, unlessErr_ok, exists_const] at h
  obtain ⟨hlength, ⟨⟨shape, kernels⟩, rest⟩, hdims, resolved, hquantization, _, -, hout⟩ := h
  obtain ⟨hcount, hchunks⟩ := chunks_words hlength
  have hle : dims.length ≤ words.length := by
    rw [← hcount]
    unfold Conv2dExecutable.constantCount conv2dExecutable
    dsimp only
    omega
  refine ⟨hle, ?_⟩
  rw [hchunks] at hdims
  obtain ⟨hset, -⟩ := (resolveDimensions_ok (by rw [List.length_map]; exact hle)).mp hdims
  have hfilled := TableShape.fills (conv2dTable precision activation) hle hsmall hset
  obtain ⟨rfl, rfl⟩ := Prod.mk.inj hfilled
  obtain ⟨precision', hwire, rfl⟩ := resolveQuantization_ok hquantization
  exact ⟨precision', hwire, (pure_ok.mp hout).symm⟩

/-- A matmul resolves to its filled table. -/
theorem matmul_filled {t : MatmulDef} {dims : List RuntimeMatmulDimension} {precision : Precision}
    {activation : Activation} {words : List Nat} (hsmall : ∀ word ∈ words, word < 2 ^ 32)
    {out : Fc.Shape} (h : (matmulExecutable t dims precision activation).resolveShape
      (constantBytes words) = .ok out) :
    dims.length ≤ words.length ∧
      out = matmulShape precision activation (matmulFields.fill dims words t) := by
  unfold MatmulExecutable.resolveShape at h
  simp only [foldlM_setDimension, bind_ok, unlessErr_ok, exists_const, pure_ok] at h
  obtain ⟨hlength, shape, hset, _, -, _, -, rfl⟩ := h
  obtain ⟨hcount, hchunks⟩ := chunks_words hlength
  have hle : dims.length ≤ words.length := hcount ▸ Nat.le_add_right _ _
  rw [hchunks] at hset
  exact ⟨hle, TableShape.fills (matmulTable precision activation) hle hsmall hset⟩

theorem deriveOutput_extents {static : Bool} {shape out : Pooling.PoolingShape}
    (h : PoolingExecutable.deriveOutput static shape = .ok out) :
    ∃ width height, out = { shape with outputWidth := width, outputHeight := height } := by
  unfold PoolingExecutable.deriveOutput at h
  simp only [bind_ok, unlessErr_ok, exists_const, pure_ok] at h
  obtain ⟨width, -, height, -, -, rfl⟩ := h
  exact ⟨width, height, rfl⟩

/-- Deriving the output extents again changes nothing. -/
theorem deriveOutput_derived {static : Bool} {shape out : Pooling.PoolingShape}
    (h : PoolingExecutable.deriveOutput static shape = .ok out) :
    PoolingExecutable.deriveOutput false out = .ok out := by
  unfold PoolingExecutable.deriveOutput at h
  simp only [bind_ok, unlessErr_ok, exists_const, pure_ok] at h
  obtain ⟨width, hwidth, height, hheight, -, rfl⟩ := h
  unfold PoolingExecutable.deriveOutput
  simp only [bind_ok, unlessErr_ok, exists_const, pure_ok]
  exact ⟨width, hwidth, height, hheight, fun hstatic => absurd hstatic Bool.false_ne_true, rfl⟩

/-- A pool resolves to its filled table, but for the output extents. -/
theorem pooling_filled {t : PoolingDef} {dims : List RuntimePoolingDimension}
    {method : Pooling.PoolingMethod} {precision : Pooling.PoolingPrecision} {padValue : Nat}
    {words : List Nat} (hsmall : ∀ word ∈ words, word < 2 ^ 32) {out : Pooling.PoolingShape}
    (h : (poolingExecutable t dims method precision padValue).resolveShape (constantBytes words) =
      .ok out) :
    dims.length ≤ words.length ∧ PoolingExecutable.deriveOutput false out = .ok out ∧ ∃ width height,
      out = { poolingShape method precision padValue (poolingFields.fill dims words t) with
        outputWidth := width, outputHeight := height } := by
  unfold PoolingExecutable.resolveShape at h
  simp only [bind_ok, unlessErr_ok, exists_const, pure_ok] at h
  obtain ⟨hlength, shape, hset, derived, hderive, _, -, rfl⟩ := h
  obtain ⟨hcount, hchunks⟩ := chunks_words hlength
  have hle : dims.length ≤ words.length := hcount ▸ Nat.le_add_right _ _
  rw [hchunks] at hset
  obtain rfl := TableShape.fills (poolingTable method precision padValue) hle hsmall hset
  obtain ⟨width, height, rfl⟩ := deriveOutput_extents hderive
  exact ⟨hle, deriveOutput_derived hderive, width, height, rfl⟩

/-- An element-wise geometry resolves to its filled one. -/
theorem geometry_filled {template : ElementwiseTemplate} {words : List Nat}
    (hsmall : ∀ word ∈ words, word < 2 ^ 32) {out : ElementwiseGeometry}
    (h : template.resolveGeometry (constantBytes words) = .ok out) :
    template.runtimeDimensions.length ≤ words.length ∧
      out = geometryFields.fill template.runtimeDimensions words template.geometry := by
  unfold ElementwiseTemplate.resolveGeometry at h
  simp only [bind_ok, unlessErr_ok, exists_const] at h
  obtain ⟨hlength, hset⟩ := h
  obtain ⟨hcount, hchunks⟩ := chunks_words hlength
  have hle : template.runtimeDimensions.length ≤ words.length := hcount ▸ Nat.le_add_right _ _
  rw [hchunks] at hset
  exact ⟨hle, TableShape.fills geometryTable hle hsmall hset⟩

/-! ### The two descriptions -/

/-- The precision a table names is the one the passes read. -/
theorem precisionCode_named {config : DictionaryAttr} {name : String} {stored : Schema.Precision}
    (hname : config.getString "precision" = .ok name) (hstored : precisionNamed name = some stored)
    {fields : QuantizationFields} {runtimeOutputScale : Bool} {precision : Precision}
    (h : Means fields runtimeOutputScale stored precision) :
    Plugin.wirePrecision precision = (passConfig config).precisionCode := by
  unfold Plugin.Config.precisionCode
  rw [passConfig_string hname]
  unfold precisionNamed at hstored
  split at hstored <;> cases hstored
  · obtain ⟨_, -, rfl⟩ := h
    rfl
  · cases h
    rfl
  · obtain ⟨_, -, rfl⟩ := h
    rfl

/-- The keys of a convolution that are no settable dimensions. -/
structure Conv2dStated (config : DictionaryAttr) (t : Conv2DDef) : Prop where
  padTop : config.getOptionalU32 "pad_top" = .ok t.padTop
  padLeft : config.getOptionalU32 "pad_left" = .ok t.padLeft
  epilogueAdd : config.getOptionalBool "epilogue_add" = .ok t.epilogueAdd
  stride : config.getU32 "stride" = .ok t.stride
  depthwise : config.getBool "depthwise" = .ok t.depthwise
  precision : ∃ name, config.getString "precision" = .ok name ∧ precisionNamed name = some t.precision

theorem conv2dStated {config : DictionaryAttr} {t : Conv2DDef}
    (h : buildRocketConv2dConfigFromTarget (some config) = .ok t) : Conv2dStated config t := by
  unfold buildRocketConv2dConfigFromTarget readConv2d parseActivationAndPrecision at h
  simp only [bind_ok, okOr_ok, pure_ok, named_ok, Option.some.injEq, exists_eq_left'] at h
  obtain ⟨_, -, shape, ⟨padTop, htop, padLeft, hleft, add, hadd, ⟨dense, layout⟩, -, packed, -, epilogue, -,
    width, -, height, -, inChannels, -, outputWidth, -, outputHeight, -, outChannels, -, weightsWidth, -,
    weightsHeight, -, stride, hstride, depthwise, hdepthwise, inputZero, -, outputZero, -, weightsZero, -,
    inputScale, -, weightsScale, -, outputScale, -, truncate, -, cmp, -, ⟨activation, precision⟩,
    ⟨_, -, _, -, name, hname, stored, hstored, heq⟩, rfl⟩, -, -, dims, -, -, -, params, -, -, -, rfl⟩ := h
  cases heq
  exact ⟨htop, hleft, hadd, hstride, hdepthwise, name, hname, hstored⟩

theorem matmulStated {config : DictionaryAttr} {t : MatmulDef}
    (h : buildRocketMatmulConfigFromTarget (some config) = .ok t) :
    ∃ name, config.getString "precision" = .ok name ∧ precisionNamed name = some t.precision := by
  unfold buildRocketMatmulConfigFromTarget readMatmul parseActivationAndPrecision at h
  simp only [bind_ok, okOr_ok, pure_ok, named_ok, Option.some.injEq, exists_eq_left'] at h
  obtain ⟨_, -, m, -, k, -, n, -, shape, ⟨inputZero, -, outputZero, -, weightsZero, -, inputScale, -,
    weightsScale, -, outputScale, -, truncate, -, cmp, -, ⟨activation, precision⟩,
    ⟨_, -, _, -, name, hname, stored, hstored, heq⟩, rfl⟩, -, -, dims, -, -, -, flags, -, packed, -, rfl⟩ := h
  cases heq
  exact ⟨name, hname, hstored⟩

theorem getOptionalU32_of {config : DictionaryAttr} {key : String} {n : Nat}
    (h : config.getU32 key = .ok n) : config.getOptionalU32 key = .ok n := by
  unfold DictionaryAttr.getOptionalU32
  split
  · rename_i habsent
    obtain ⟨v, hv, -⟩ := getU32_ok.mp h
    obtain ⟨attr, hattr, -⟩ := Option.bind_eq_some_iff.mp (okOr_ok.mp hv)
    cases habsent.symm.trans hattr
  · exact h

section Agrees

variable {m : Module} {config : DictionaryAttr} {arguments : List Value} {words : List Nat}
  {geometry : Plugin.Geometry}

theorem conv2d_agrees {t : Conv2DDef} {dims : List RuntimeConv2dDimension}
    (hspelled : Spelled conv2dSpelling config dims fun d => conv2dFields.get d t) (hnodup : dims.Nodup)
    (hstated : Conv2dStated config t) (hextents : Extents m config arguments)
    (hpushed : Pushed m arguments words) (hlength : dims.length ≤ words.length)
    {fields : QuantizationFields} {runtimeOutputScale : Bool} {precision precision' : Precision}
    {activation : Activation} (hmeans : Means fields runtimeOutputScale t.precision precision)
    (hwire : Plugin.wirePrecision precision' = Plugin.wirePrecision precision)
    (h : Plugin.describeConv (passConfig config) (m.dimension (passConfig config) arguments) =
      some geometry) :
    Plugin.Agrees "conv2d" (passConfig config) (m.dimension (passConfig config) arguments)
      (.conv2d (conv2dShape precision' activation (conv2dFields.fill dims words t)).1
        (conv2dShape precision' activation (conv2dFields.fill dims words t)).2 t.epilogueAdd) := by
  obtain ⟨name, hname, hstored⟩ := hstated.precision
  have hkept {β : Type} (g : Conv2DDef → β) (hg : ∀ d v t, g (conv2dFields.set d v t) = g t) :
      g (conv2dFields.fill dims words t) = g t := Fields.fill_congr hg t
  have hstride := hkept (fun t => t.stride) (by intro d v t; cases d <;> rfl)
  have hdepthwise := hkept (fun t => t.depthwise) (by intro d v t; cases d <;> rfl)
  have htop := hkept (fun t => t.padTop) (by intro d v t; cases d <;> rfl)
  have hleft := hkept (fun t => t.padLeft) (by intro d v t; cases d <;> rfl)
  beta_reduce at hstride hdepthwise htop hleft
  unfold Plugin.describeConv Plugin.convDims at h
  simp only [Option.bind_eq_bind, Option.bind_eq_some_iff] at h
  obtain ⟨code, -, _, ⟨width, hw, height, hh, cin, hcin, cout, hcout, kw, hkw, kh, hkh, stride, hs, -⟩,
    -⟩ := h
  have hfilled (d : RuntimeConv2dDimension) {v : Int} :=
    dimension_filled (r := d) (v := v) hspelled hnodup rfl hextents hpushed hlength
      (by cases d <;> decide)
  have hunspelled {key : String} (hkey : key ∉ RuntimeConv2dDimension.all.map conv2dSpelling.nameOf)
      (d : RuntimeConv2dDimension) : conv2dSpelling.nameOf d ≠ key := fun heq =>
    hkey (List.mem_map.mpr ⟨d, by cases d <;> decide, heq⟩)
  have hpad {key : String} {n : Nat} (hkey : key ∈ extentNames)
      (hout : key ∉ RuntimeConv2dDimension.all.map conv2dSpelling.nameOf)
      (hn : config.getOptionalU32 key = .ok n) :=
    pad_agrees hspelled rfl hextents hkey (hunspelled hout) hn
  obtain ⟨rfl, hw_lt⟩ := hfilled .inputWidth hw
  obtain ⟨rfl, hh_lt⟩ := hfilled .inputHeight hh
  obtain ⟨rfl, hcin_lt⟩ := hfilled .inputChannels hcin
  obtain ⟨rfl, hcout_lt⟩ := hfilled .outputChannels hcout
  obtain ⟨rfl, hkw_lt⟩ := hfilled .weightsWidth hkw
  obtain ⟨rfl, hkh_lt⟩ := hfilled .weightsHeight hkh
  have hstrideKey : ∀ d, conv2dSpelling.nameOf d ≠ "stride" := hunspelled (by decide)
  obtain ⟨rfl, hs_lt⟩ := dimension_stated hspelled rfl hextents (by decide) hstrideKey hstated.stride hs
  refine ⟨rfl, hwire.trans (precisionCode_named hname hstored hmeans), ?_,
    passConfig_optionalBool hstated.epilogueAdd, ?_, (t.padTop, t.padLeft), ?_,
    hpad (by decide) (by decide) hstated.padTop, hpad (by decide) (by decide) hstated.padLeft⟩
  · exact (passConfig_bool hstated.depthwise).trans hdepthwise.symm
  · simp only [Plugin.dimsAgree_cons, Plugin.dimsAgree_nil, and_true]
    refine ⟨⟨hw, hw_lt⟩, ⟨hh, hh_lt⟩, ⟨hcin, hcin_lt⟩, ⟨hcout, hcout_lt⟩, ⟨hkw, hkw_lt⟩, ⟨hkh, hkh_lt⟩,
      ?_, ?_⟩
    · exact hs.trans (congrArg some (congrArg Nat.cast hstride.symm))
    · exact hstride.trans_lt hs_lt
  · exact congrArg some (Prod.ext htop hleft)

theorem matmul_agrees {t : MatmulDef} {dims : List RuntimeMatmulDimension}
    (hspelled : Spelled matmulSpelling config dims fun d => matmulFields.get d t) (hnodup : dims.Nodup)
    (hprecision : ∃ name, config.getString "precision" = .ok name ∧ precisionNamed name = some t.precision)
    (haccumulator : t.precision ≠ .int8Accumulator) (hextents : Extents m config arguments)
    (hpushed : Pushed m arguments words) (hlength : dims.length ≤ words.length)
    {fields : QuantizationFields} {precision : Precision} {activation : Activation}
    (hmeans : Means fields false t.precision precision)
    (h : Plugin.describeMatmul (passConfig config) (m.dimension (passConfig config) arguments) =
      some geometry) :
    Plugin.Agrees "matmul" (passConfig config) (m.dimension (passConfig config) arguments)
      (.matmul (matmulShape precision activation (matmulFields.fill dims words t))) := by
  obtain ⟨name, hname, hstored⟩ := hprecision
  unfold Plugin.describeMatmul at h
  simp only [Option.bind_eq_bind, Option.bind_eq_some_iff] at h
  obtain ⟨code, -, m', hm, k, hk, n, hn, -⟩ := h
  have hfilled (d : RuntimeMatmulDimension) {v : Int} :=
    dimension_filled (r := d) (v := v) hspelled hnodup rfl hextents hpushed hlength
      (by cases d <;> decide)
  obtain ⟨rfl, hm_lt⟩ := hfilled .m hm
  obtain ⟨rfl, hk_lt⟩ := hfilled .k hk
  obtain ⟨rfl, hn_lt⟩ := hfilled .n hn
  refine ⟨rfl, precisionCode_named hname hstored hmeans, ?_, ?_⟩
  · exact hmeans.writesAccumulators haccumulator
  · simp only [Plugin.dimsAgree_cons, Plugin.dimsAgree_nil, and_true]
    exact ⟨⟨hm, hm_lt⟩, ⟨hk, hk_lt⟩, hn, hn_lt⟩

/-- The keys of a pool that are no settable dimensions. -/
structure PoolingStated (config : DictionaryAttr) (t : PoolingDef) : Prop where
  padLeft : config.getU32 "pad_left" = .ok t.padLeft
  padTop : config.getU32 "pad_top" = .ok t.padTop
  padRight : config.getU32 "pad_right" = .ok t.padRight
  padBottom : config.getU32 "pad_bottom" = .ok t.padBottom
  precision : ∃ name, config.getString "precision" = .ok name ∧
    poolingPrecisionNamed name = some t.precision

theorem poolingStated {config : DictionaryAttr} {t : PoolingDef}
    (h : buildRocketPoolingConfigFromTarget (some config) = .ok t) : PoolingStated config t := by
  unfold buildRocketPoolingConfigFromTarget readPooling at h
  simp only [bind_ok, okOr_ok, unlessErr_ok, exists_const, pure_ok, named_ok, Option.some.injEq,
    exists_eq_left'] at h
  obtain ⟨_, -, shape, ⟨width, -, height, -, channels, -, outputWidth, -, outputHeight, -, kernelWidth, -,
    kernelHeight, -, strideX, -, strideY, -, padLeft, hleft, padTop, htop, padRight, hright, padBottom,
    hbottom, _, -, method, -, name, hname, precision, hprecision, rfl⟩, dims, -, _, -, -, -, flags, -,
    rfl⟩ := h
  exact ⟨hleft, htop, hright, hbottom, name, hname, hprecision⟩

theorem pooling_agrees {t : PoolingDef} {dims : List RuntimePoolingDimension}
    (hspelled : Spelled poolingSpelling config dims fun d => poolingFields.get d t) (hnodup : dims.Nodup)
    (hstated : PoolingStated config t) (hextents : Extents m config arguments)
    (hpushed : Pushed m arguments words) (hlength : dims.length ≤ words.length)
    {method : Pooling.PoolingMethod} {precision : Pooling.PoolingPrecision} {padValue outWidth outHeight : Nat}
    (hprecision : decodePoolingPrecision t.precision = .ok precision)
    (hderived : PoolingExecutable.deriveOutput false {
      poolingShape method precision padValue (poolingFields.fill dims words t) with
      outputWidth := outWidth, outputHeight := outHeight } = .ok {
      poolingShape method precision padValue (poolingFields.fill dims words t) with
      outputWidth := outWidth, outputHeight := outHeight })
    (h : Plugin.describePooling (passConfig config) (m.dimension (passConfig config) arguments) =
      some geometry) :
    Plugin.Agrees "pooling" (passConfig config) (m.dimension (passConfig config) arguments)
      (.pooling {
        poolingShape method precision padValue (poolingFields.fill dims words t) with
        outputWidth := outWidth, outputHeight := outHeight }) := by
  obtain ⟨name, hname, hstored⟩ := hstated.precision
  have hkept {β : Type} (g : PoolingDef → β) (hg : ∀ d v t, g (poolingFields.set d v t) = g t) :
      g (poolingFields.fill dims words t) = g t := Fields.fill_congr hg t
  have hleft := hkept (fun t => t.padLeft) (by intro d v t; cases d <;> rfl)
  have htop := hkept (fun t => t.padTop) (by intro d v t; cases d <;> rfl)
  have hright := hkept (fun t => t.padRight) (by intro d v t; cases d <;> rfl)
  have hbottom := hkept (fun t => t.padBottom) (by intro d v t; cases d <;> rfl)
  beta_reduce at hleft htop hright hbottom
  unfold Plugin.describePooling at h
  simp only [Option.bind_eq_bind, Option.bind_eq_some_iff] at h
  obtain ⟨code, -, width, hw, height, hh, channels, hc, kw, hkw, kh, hkh, sx, hsx, sy, hsy, -⟩ := h
  have hfilled (d : RuntimePoolingDimension) {v : Int} :=
    dimension_filled (r := d) (v := v) hspelled hnodup rfl hextents hpushed hlength
      (by cases d <;> decide)
  have hunspelled {key : String} (hkey : key ∉ RuntimePoolingDimension.all.map poolingSpelling.nameOf)
      (d : RuntimePoolingDimension) : poolingSpelling.nameOf d ≠ key := fun heq =>
    hkey (List.mem_map.mpr ⟨d, by cases d <;> decide, heq⟩)
  have hpad {key : String} {n n' : Nat} (hkey : key ∈ extentNames)
      (hout : key ∉ RuntimePoolingDimension.all.map poolingSpelling.nameOf)
      (hn : config.getU32 key = .ok n) (hsame : n' = n) :
      Plugin.PadAgrees (m.dimension (passConfig config) arguments) key n' :=
    hsame ▸ pad_agrees hspelled rfl hextents hkey (hunspelled hout) (getOptionalU32_of hn)
  obtain ⟨rfl, hw_lt⟩ := hfilled .inputWidth hw
  obtain ⟨rfl, hh_lt⟩ := hfilled .inputHeight hh
  obtain ⟨rfl, hc_lt⟩ := hfilled .channels hc
  obtain ⟨rfl, hkw_lt⟩ := hfilled .kernelWidth hkw
  obtain ⟨rfl, hkh_lt⟩ := hfilled .kernelHeight hkh
  obtain ⟨rfl, hsx_lt⟩ := hfilled .strideX hsx
  obtain ⟨rfl, hsy_lt⟩ := hfilled .strideY hsy
  refine ⟨rfl, ?_, ?_, hpad (by decide) (by decide) hstated.padLeft hleft,
    hpad (by decide) (by decide) hstated.padRight hright, hpad (by decide) (by decide) hstated.padTop htop,
    hpad (by decide) (by decide) hstated.padBottom hbottom, hderived⟩
  · unfold Plugin.Config.precisionCode
    rw [passConfig_string hname]
    generalize t.precision = stored at hstored hprecision
    unfold poolingPrecisionNamed at hstored
    split at hstored <;> cases hstored <;> cases hprecision <;> rfl
  · simp only [Plugin.dimsAgree_cons, Plugin.dimsAgree_nil, and_true]
    exact ⟨⟨hw, hw_lt⟩, ⟨hh, hh_lt⟩, ⟨hc, hc_lt⟩, ⟨hkw, hkw_lt⟩, ⟨hkh, hkh_lt⟩, ⟨hsx, hsx_lt⟩, hsy,
      hsy_lt⟩

theorem elementwiseBinary_agrees {g : ElementwiseGeometry} {dims : List RuntimeElementwiseDimension}
    (hspelled : Spelled elementwiseSpelling config dims fun d => geometryFields.get d g)
    (hnodup : dims.Nodup) (hextents : Extents m config arguments) (hpushed : Pushed m arguments words)
    (hlength : dims.length ≤ words.length) (op : EwBinaryOp)
    (h : Plugin.describeElementwise (m.dimension (passConfig config) arguments) = some geometry) :
    Plugin.Agrees "elementwise_binary" (passConfig config) (m.dimension (passConfig config) arguments)
      (.elementwiseBinary ⟨geometryFields.fill dims words g, op⟩) := by
  unfold Plugin.describeElementwise at h
  simp only [Option.bind_eq_bind, Option.bind_eq_some_iff] at h
  obtain ⟨width, hw, height, hh, channels, hc, -⟩ := h
  have hfilled (d : RuntimeElementwiseDimension) {v : Int} :=
    dimension_filled (r := d) (v := v) hspelled hnodup rfl hextents hpushed hlength
      (by cases d <;> decide)
  obtain ⟨rfl, hw_lt⟩ := hfilled .width hw
  obtain ⟨rfl, hh_lt⟩ := hfilled .height hh
  obtain ⟨rfl, hc_lt⟩ := hfilled .channels hc
  refine ⟨rfl, ?_⟩
  simp only [Plugin.dimsAgree_cons, Plugin.dimsAgree_nil, and_true]
  exact ⟨⟨hw, hw_lt⟩, ⟨hh, hh_lt⟩, hc, hc_lt⟩

end Agrees

/-! ### A dispatch that goes all the way -/

/-- What a dispatch of the module goes through: the config the pass reads of it is serialized, the driver
loads the executable, and the words pushed for its operands resolve. -/
structure Serving (m : Module) (site : Plugin.Site) (shape : ResolvedShape) where
  config : DictionaryAttr
  variant : ExecutableVariant
  executable : ExecutableDef
  loaded : UkernelShape
  words : List Nat
  reads : site.config = passConfig config
  configured : variant.configuration = some config
  serialized : serializeExecutable variant = .ok executable
  decoded : decodeExecutable executable = .ok loaded
  extents : Extents m config site.dispatch.arguments
  pushed : Pushed m site.dispatch.arguments words
  resolved : loaded.resolveShape (constantBytes words) = .ok shape

/-- A dispatch that goes all the way. -/
def Served (m : Module) (site : Plugin.Site) (shape : ResolvedShape) : Prop :=
  Nonempty (Serving m site shape)

/-- The kernel a site is described by is the config's. -/
theorem site_kernel {m : Module} {o : Nat} {site : Plugin.Site} (h : m.site o = some site) :
    site.config.stringAttr "kernel" = some site.kernel := by
  unfold Module.site at h
  split at h
  · simp only [Option.bind_eq_bind, Option.bind_eq_some_iff] at h
    obtain ⟨target, -, kernel, hkernel, h⟩ := h
    split_ifs at h
    obtain rfl := Option.some.inj h
    exact hkernel
  · cases h

/-- The backend builds the kernel the passes read. -/
theorem kernelOf_passConfig {config : DictionaryAttr} {name kernel : String}
    (hname : kernelOf (some config) = .ok name)
    (h : (passConfig config).stringAttr "kernel" = some kernel) : name = kernel := by
  unfold Plugin.Config.stringAttr at h
  split at h
  · rename_i value hvalue
    cases h
    rw [passConfig_get] at hvalue
    obtain ⟨attr, hattr, hread⟩ := Option.bind_eq_some_iff.mp hvalue
    unfold kernelOf at hname
    rw [Option.bind_some, hattr] at hname
    unfold Attr.read? at hread
    split at hread <;> cases hread
    cases hname
    rfl
  · cases h

/-- **A served dispatch is the one the pass described**, wherever it described one. -/
theorem Served.agrees {m : Module} {o : Nat} {site : Plugin.Site} {shape : ResolvedShape}
    (hsite : m.site o = some site) (hserved : Served m site shape) {geometry : Plugin.Geometry}
    (h : Plugin.describe site.kernel site.config (m.dimension site.config site.dispatch.arguments) =
      some geometry) :
    Plugin.Agrees site.kernel site.config (m.dimension site.config site.dispatch.arguments) shape := by
  obtain ⟨⟨config, variant, executable, u, words, hconfig, hvariant, hserialized, hloaded, hextents,
    hpushed, hresolved⟩⟩ := hserved
  obtain ⟨-, name, hname, -, kernel, hbuilt, exportOp, -, -, -, rfl⟩ :=
    serializeExecutable_ok.mp hserialized
  have hkernel := site_kernel hsite
  rw [hvariant] at hname hbuilt
  rw [hconfig] at hkernel h ⊢
  obtain rfl := kernelOf_passConfig hname hkernel
  have hloaded : decodeFlatbufferShape kernel = .ok u := hloaded
  unfold Plugin.describe at h
  split_ifs at h with hconv hmatmul hpooling hbinary
  · rw [hconv] at hbuilt ⊢
    obtain ⟨t, ht, rfl⟩ := map_ok.mp hbuilt
    obtain ⟨_, dims, params, hdictionary, hwritten, hspelled⟩ := conv2dWritten ht
    cases hdictionary
    obtain ⟨_, hdecode, -, rfl⟩ := decoded_ok.mp hloaded
    obtain ⟨precision, activation, epilogue, hmeans, -, -, rfl⟩ := hwritten.decode_ok.mp hdecode
    simp only [UkernelShape.resolveShape, bind_ok, pure_ok] at hresolved
    obtain ⟨⟨shape, kernels⟩, hresolved, rfl⟩ := hresolved
    obtain ⟨hlength, precision', hwire, hfilled⟩ := conv2d_filled hpushed.small hresolved
    obtain ⟨rfl, rfl⟩ := Prod.mk.inj hfilled
    exact conv2d_agrees hspelled hwritten.template.nodup (conv2dStated ht) hextents hpushed hlength hmeans
      hwire h
  · rw [hmatmul] at hbuilt ⊢
    obtain ⟨t, ht, rfl⟩ := map_ok.mp hbuilt
    obtain ⟨_, dims, hdictionary, hwritten, hspelled⟩ := matmulWritten ht
    cases hdictionary
    obtain ⟨_, hdecode, -, rfl⟩ := decoded_ok.mp hloaded
    obtain ⟨precision, activation, hmeans, -, rfl⟩ := hwritten.decode_ok.mp hdecode
    simp only [UkernelShape.resolveShape, bind_ok, pure_ok] at hresolved
    obtain ⟨shape, hresolved, rfl⟩ := hresolved
    obtain ⟨hlength, rfl⟩ := matmul_filled hpushed.small hresolved
    exact matmul_agrees hspelled hwritten.template.nodup (matmulStated ht) hwritten.precision hextents
      hpushed hlength hmeans h
  · rw [hpooling] at hbuilt ⊢
    obtain ⟨t, ht, rfl⟩ := map_ok.mp hbuilt
    obtain ⟨_, dims, hdictionary, hwritten, hspelled⟩ := poolingWritten ht
    cases hdictionary
    obtain ⟨_, hdecode, -, rfl⟩ := decoded_ok.mp hloaded
    obtain ⟨method, precision, padValue, -, hprecision, -, rfl⟩ := hwritten.decode_ok.mp hdecode
    simp only [UkernelShape.resolveShape, bind_ok, pure_ok] at hresolved
    obtain ⟨shape, hresolved, rfl⟩ := hresolved
    obtain ⟨hlength, hderived, width, height, rfl⟩ := pooling_filled hpushed.small hresolved
    exact pooling_agrees hspelled hwritten.template.nodup (poolingStated ht) hextents hpushed hlength
      hprecision hderived h
  · rw [hbinary] at hbuilt ⊢
    obtain ⟨t, ht, rfl⟩ := map_ok.mp hbuilt
    obtain ⟨_, dims, hdictionary, hwritten, hspelled⟩ := binaryWritten ht
    cases hdictionary
    obtain ⟨op, -, rfl⟩ := hwritten.loads.mp hloaded
    simp only [UkernelShape.resolveShape, ElementwiseBinaryExecutable.resolveShape, bind_ok,
      pure_ok] at hresolved
    obtain ⟨_, ⟨geometry', hgeometry, rfl⟩, rfl⟩ := hresolved
    obtain ⟨hlength, rfl⟩ := geometry_filled hpushed.small hgeometry
    exact elementwiseBinary_agrees hspelled hwritten.elementwise.template.nodup hextents hpushed hlength _ h

/-- **The cubes the compiler weighs are the driver's.** For every dispatch the layout pass describes, once
it is served: the cube the pass has for an input binding is the one the driver would pack the binding to,
and the cube it has for the result is the one the driver publishes. -/
theorem served_sides_agree {m : Module} {o : Nat} {site : Plugin.Site} {shape : ResolvedShape}
    (hsite : m.site o = some site) (hserved : Served m site shape) :
    Plugin.SidesAgree shape site.geometry := by
  rw [Module.site_geometry hsite]
  cases h : Plugin.describe site.kernel site.config
      (m.dimension site.config site.dispatch.arguments) with
  | none => exact Plugin.sidesAgree_empty shape
  | some geometry => exact Plugin.describe_sides (hserved.agrees hsite h) h

/-- **A packed edge between served dispatches chains.** Nothing is assumed of the dimensions at run time:
the geometry the driver computes for the consumer's binding can chain, and is identical to the one it
publishes for the producer. -/
theorem served_edge_chains {m : Module} {producer consumer : Plugin.Site} {b : Nat}
    {output input : Plugin.Cube} {p c : ResolvedShape} (hconsumer : m.site consumer.op = some consumer)
    (hedge : m.Edge consumer b producer output input) (hp : Served m producer p)
    (hc : Served m consumer c) {read : CubeGeometry} (hread : c.inputCube b = .ok (some read)) :
    read.canChain = .ok () ∧ ∀ fannedOut published, p.publishedCube fannedOut = .ok (some published) →
      chainIdentity published read = .ok () := by
  obtain ⟨g, g', hg, hg', hidentity⟩ := PlanFfi.chainIdentityChecked_ok.mp hedge.identity
  obtain rfl := (served_sides_agree hconsumer hc).input hedge.reads hg' hread
  refine ⟨canChain_ok.mpr (chainIdentity_ok.mp hidentity).1, fun fannedOut published hrun => ?_⟩
  obtain rfl := (served_sides_agree hedge.laidOut hp).output hedge.publishes hg hrun
  exact hidentity

/-! ### Two adds over rows of a constant count -/

/-- A residual add over sixteen channels, of a dispatch's height. -/
def rowsConfig : DictionaryAttr where
  entries := [("kernel", .read (.string "elementwise_binary")), ("width", .read (.integer 4)),
    ("height", .read (.integer 0)), ("channels", .read (.integer 16)), ("op", .read (.string "add")),
    ("runtime_dimensions", .read (.array [some "height"])), ("runtime_layout", .read (.bool true))]
  unique := by decide

def rowsVariant : ExecutableVariant where
  format := "rocket-flatbuffer-v1"
  configuration := some rowsConfig
  exports := [⟨"add", some 0, 2⟩]

def rowsDispatch (first second : Value) : Plugin.Dispatch where
  target := some ⟨"add", passConfig rowsConfig⟩
  workload := []
  arguments := [.result 0 0, .argument 0, first, second]
  others := []
  tied := []
  results := 1

/-- The second add reads the sum of the first; both are four rows high. -/
def rowAdds : Module where
  ops := [.constant (some 4), .dispatch (rowsDispatch (.argument 1) (.argument 2)),
    .dispatch (rowsDispatch (.result 1 0) (.argument 1))]
  isI32 value := value = .argument 0
  dominance := by
    intro o source dims hop
    rcases o with _ | _ | _ | o <;> simp at hop

def rowsSite (op : Nat) (first second : Value) : Plugin.Site where
  op := op
  dispatch := rowsDispatch first second
  config := passConfig rowsConfig
  kernel := "elementwise_binary"
  geometry := { inputs := [some Plugin.addCube, some Plugin.addCube, none], output := some Plugin.addCube }

theorem rowsSite_served (op : Nat) (first second : Value)
    (hrange : ∀ name ∈ extentNames, (rowAdds.dimension (passConfig rowsConfig)
      (rowsDispatch first second).arguments name).all (fun v => decide (0 ≤ v ∧ v < 2 ^ 32)) = true) :
    Served rowAdds (rowsSite op first second) (.elementwiseBinary ⟨⟨4, 4, 16⟩, .add⟩) := by
  refine ⟨⟨rowsConfig, rowsVariant, _, _, [4, 0], rfl, rfl, rfl, rfl, ⟨by decide, ?_⟩,
    ⟨by decide, ?_⟩, rfl⟩⟩
  · intro name hname v hv
    have hall := hrange name hname
    rw [show rowAdds.dimension (passConfig rowsConfig) (rowsDispatch first second).arguments name = some v
      from hv] at hall
    exact of_decide_eq_true hall
  · intro i v word hv hword
    rcases i with _ | _ | i
    · cases hv
      cases hword
      rfl
    · cases hv
    · cases hword

/-- The edge between the two adds is packed, and chains. -/
theorem served_edge_chains_rows : Plugin.addGeometry.canChain = .ok () ∧ ∀ fannedOut published,
    (ResolvedShape.elementwiseBinary ⟨⟨4, 4, 16⟩, .add⟩).publishedCube fannedOut = .ok (some published) →
      chainIdentity published Plugin.addGeometry = .ok () := by
  have hproducer : rowAdds.site 1 = some (rowsSite 1 (.argument 1) (.argument 2)) := by decide
  have hconsumer : rowAdds.site 2 = some (rowsSite 2 (.result 1 0) (.argument 1)) := by decide
  have hedge : rowAdds.Edge (rowsSite 2 (.result 1 0) (.argument 1)) 0
      (rowsSite 1 (.argument 1) (.argument 2)) Plugin.addCube Plugin.addCube :=
    ⟨rfl, ⟨.result 1 0, by decide, by decide⟩, by decide, hproducer, rfl, by decide⟩
  exact served_edge_chains hconsumer hedge (rowsSite_served 1 _ _ (by decide))
    (rowsSite_served 2 _ _ (by decide)) (by decide)

end IreeRocket.Backend
