import IreeRocket.Driver.ExecutableDecode
import IreeRocket.Lib.Fields

/-!
# Templates and their push constants

The four kinds check a template and fill it in by the same two loops. Over a table whose dimensions are
independent fields (`TableShape`), checking the template leaves the unlisted dimensions to be nonzero
(`TableShape.checks`), and filling it with the table's own values gives the table's shape back, the listed
ones nonzero (`TableShape.sets`).
-/

namespace IreeRocket.Driver

open Conv Layout Weights ExecutableFormat

/-! ### Push constants -/

/-- The push constants of a dispatch, in native byte order. -/
def constantBytes (words : List Nat) : Bytes := words.flatMap le32

theorem length_constantBytes (words : List Nat) : (constantBytes words).length = words.length * 4 := by
  induction words with
  | nil => rfl
  | cons word words ih =>
    unfold constantBytes at ih ⊢
    rw [List.flatMap_cons, List.length_append, ih, length_le32, List.length_cons]
    omega

theorem u32FromNeBytes_le32 {n : Nat} (h : n < 2 ^ 32) : u32FromNeBytes (le32 n) = n := by
  simp only [u32FromNeBytes, le32, List.foldr_cons, List.foldr_nil, UInt8.toNat_ofNat']
  omega

/-- The chunks of the constants are the words again. -/
theorem chunksExact_constantBytes (words : List Nat) :
    chunksExact (constantBytes words) words.length = words.map le32 := by
  induction words with
  | nil => rfl
  | cons word words ih =>
    have hbytes : constantBytes (word :: words) = le32 word ++ constantBytes words := rfl
    have htail (i : Nat) : load (constantBytes (word :: words)) (4 * (i + 1)) 4 =
        load (constantBytes words) (4 * i) 4 := by
      unfold load
      rw [hbytes, show 4 * (i + 1) = (le32 word).length + 4 * i by rw [length_le32]; omega,
        List.drop_append, List.drop_eq_nil_of_le (Nat.le_add_right _ _), List.nil_append,
        Nat.add_sub_cancel_left]
    have hhead : load (constantBytes (word :: words)) (4 * 0) 4 = le32 word := rfl
    rw [List.map_cons, ← ih]
    unfold chunksExact
    rw [List.length_cons, List.range_succ_eq_map, List.map_cons, List.map_map, hhead]
    exact congrArg _ (List.map_congr_left fun i _ => htail i)

/-! ### Templates -/

section Template

variable {D : Type} [DecidableEq D] {get : D → Nat} {unique zero nonzero : String} {u : Unit}

theorem checkListed_ok {seen dims : List D} :
    checkListed get unique zero seen dims = .ok u ↔
      dims.Nodup ∧ (∀ d ∈ dims, d ∉ seen) ∧ ∀ d ∈ dims, get d = 0 := by
  induction dims generalizing seen with
  | nil => simp [checkListed, pure_ok]
  | cons d dims ih =>
    simp only [checkListed, bind_ok, unlessErr_ok, exists_const, ih, List.nodup_cons,
      List.forall_mem_cons]
    simp only [List.mem_cons, not_or]
    constructor
    · rintro ⟨hseen, hzero, hnodup, hrest, hzeros⟩
      exact ⟨⟨fun hmem => (hrest d hmem).1 rfl, hnodup⟩, ⟨hseen, fun d' hd' => (hrest d' hd').2⟩,
        hzero, hzeros⟩
    · rintro ⟨⟨hmem, hnodup⟩, ⟨hseen, hrest⟩, hzero, hzeros⟩
      exact ⟨hseen, hzero, hnodup, fun d' hd' => ⟨fun heq => hmem (heq ▸ hd'), hrest d' hd'⟩, hzeros⟩

theorem checkStated_ok {seen all : List D} :
    checkStated get nonzero seen all = .ok u ↔ ∀ d ∈ all, d ∈ seen ∨ get d ≠ 0 := by
  induction all with
  | nil => simp [checkStated, pure_ok]
  | cons d all ih =>
    simp only [checkStated, bind_ok, unlessErr_ok, exists_const, ih, List.forall_mem_cons]

/-- What the template check asks. -/
theorem checkDimensions_ok {all dims : List D} :
    checkDimensions all get unique zero nonzero dims = .ok u ↔
      dims.Nodup ∧ (∀ d ∈ dims, get d = 0) ∧ ∀ d ∈ all, d ∈ dims ∨ get d ≠ 0 := by
  unfold checkDimensions
  simp only [bind_ok, checkListed_ok, checkStated_ok, exists_const, List.not_mem_nil,
    not_false_eq_true, implies_true, true_and, and_assoc]

omit [DecidableEq D] in
/-- The loop over the constants writes them all, where none is zero. -/
theorem setDimensions_ok {S : Type} {set : D → Nat → S → S} {dims : List D} {values : List Nat}
    {rest : List Bytes} {shape out : S} (hlen : dims.length = values.length)
    (hvalues : ∀ v ∈ values, v < 2 ^ 32) :
    setDimensions set nonzero dims (values.map le32 ++ rest) shape = .ok out ↔
      (∀ v ∈ values, v ≠ 0) ∧
        (dims.zip values).foldl (fun shape entry => set entry.1 entry.2 shape) shape = out := by
  induction dims generalizing values shape with
  | nil =>
    obtain rfl := List.length_eq_zero_iff.mp hlen.symm
    simp [setDimensions, pure_ok]
  | cons d dims ih =>
    cases values with
    | nil => cases hlen
    | cons v values =>
      obtain ⟨hv, hvalues⟩ := List.forall_mem_cons.mp hvalues
      simp only [List.map_cons, List.cons_append, setDimensions, bind_ok, unlessErr_ok, exists_const,
        u32FromNeBytes_le32 hv, ih (Nat.succ.inj hlen) hvalues, List.forall_mem_cons, List.zip_cons_cons,
        List.foldl_cons, and_assoc]

end Template

/-- A shape read off a table: its dimensions are the table's. -/
structure TableShape (S T D : Type) where
  fields : Fields T D
  all : List D
  mem_all : ∀ d, d ∈ all
  get : S → D → Nat
  set : D → Nat → S → S
  shapeOf : T → S
  get_shapeOf : ∀ t d, get (shapeOf t) d = fields.get d t
  set_shapeOf : ∀ d v t, set d v (shapeOf t) = shapeOf (fields.set d v t)

namespace TableShape

variable {S T D : Type} [DecidableEq D] (K : TableShape S T D) {dims : List D} {t : T}

/-- The template check leaves the unlisted dimensions to be nonzero. -/
theorem checks (hnodup : dims.Nodup) (unique zero nonzero : String) {u : Unit} :
    checkDimensions K.all (K.get (K.shapeOf (K.fields.blank dims t))) unique zero nonzero dims = .ok u ↔
      ∀ d, d ∈ dims ∨ K.fields.get d t ≠ 0 := by
  rw [checkDimensions_ok]
  simp only [K.get_shapeOf]
  constructor
  · rintro ⟨-, -, hstated⟩ d
    by_cases hd : d ∈ dims
    · exact .inl hd
    · rw [← Fields.get_blank_of_notMem hd]
      exact hstated d (K.mem_all d)
  · intro h
    refine ⟨hnodup, fun d hd => Fields.get_blank_of_mem hd t, fun d _ => ?_⟩
    by_cases hd : d ∈ dims
    · exact .inl hd
    · rw [Fields.get_blank_of_notMem hd]
      exact h d

omit [DecidableEq D] in
/-- The constants give the table's shape back, where the listed dimensions are nonzero. -/
theorem sets (hnodup : dims.Nodup) (hvalues : ∀ d ∈ dims, K.fields.get d t < 2 ^ 32)
    (message : String) (rest : List Bytes) (out : S) :
    setDimensions K.set message dims ((dims.map fun d => K.fields.get d t).map le32 ++ rest)
        (K.shapeOf (K.fields.blank dims t)) = .ok out ↔
      (∀ d ∈ dims, K.fields.get d t ≠ 0) ∧ K.shapeOf t = out := by
  have hfill : (dims.zip (dims.map fun d => K.fields.get d t)).foldl
      (fun shape entry => K.set entry.1 entry.2 shape) (K.shapeOf (K.fields.blank dims t)) =
        K.shapeOf t := by
    have hhom : (dims.zip (dims.map fun d => K.fields.get d t)).foldl
        (fun shape entry => K.set entry.1 entry.2 shape) (K.shapeOf (K.fields.blank dims t)) =
          K.shapeOf (K.fields.fill dims (dims.map fun d => K.fields.get d t) (K.fields.blank dims t)) :=
      List.foldl_hom K.shapeOf fun s entry => K.set_shapeOf entry.1 entry.2 s
    rw [hhom, K.fields.fill_blank hnodup t]
  have hsmall : ∀ v ∈ dims.map fun d => K.fields.get d t, v < 2 ^ 32 := by
    intro v hv
    obtain ⟨d, hd, rfl⟩ := List.mem_map.mp hv
    exact hvalues d hd
  rw [setDimensions_ok (by rw [List.length_map]) hsmall, hfill]
  simp only [List.forall_mem_map]

omit [DecidableEq D] in
/-- Between them, all dimensions. -/
theorem stated_iff (dims : List D) (t : T) :
    ((∀ d, d ∈ dims ∨ K.fields.get d t ≠ 0) ∧ ∀ d ∈ dims, K.fields.get d t ≠ 0) ↔
      ∀ d, K.fields.get d t ≠ 0 :=
  ⟨fun h d => (h.1 d).elim (h.2 d) id, fun h => ⟨fun d => .inr (h d), fun d _ => h d⟩⟩

/-- Checking the template and filling it in. -/
theorem checks_and_sets (hnodup : dims.Nodup) (hvalues : ∀ d ∈ dims, K.fields.get d t < 2 ^ 32)
    (unique zero nonzero message : String) (rest : List Bytes) {u : Unit} {out : S} :
    checkDimensions K.all (K.get (K.shapeOf (K.fields.blank dims t))) unique zero nonzero dims = .ok u ∧
        setDimensions K.set message dims ((dims.map fun d => K.fields.get d t).map le32 ++ rest)
          (K.shapeOf (K.fields.blank dims t)) = .ok out ↔
      (∀ d, K.fields.get d t ≠ 0) ∧ K.shapeOf t = out := by
  rw [K.checks hnodup, K.sets hnodup hvalues, ← and_assoc, K.stated_iff]

end TableShape

/-- What decodes to itself member by member decodes to itself. -/
theorem mapM_map_ok {α β ε : Type} {encode : α → β} {decode : β → Except ε α}
    (h : ∀ a, decode (encode a) = .ok a) (l : List α) : (l.map encode).mapM decode = .ok l := by
  induction l with
  | nil => rfl
  | cons a l ih =>
    rw [List.map_cons, List.mapM_cons, h, ih]
    rfl

/-- The words a dispatch pushes: the listed dimensions' values, then the layout word. -/
def pushed {T D : Type} (F : Fields T D) (dims : List D) (t : T) (word : Option Nat) : List Nat :=
  (dims.map fun d => F.get d t) ++ word.toList

theorem length_pushed {T D : Type} (F : Fields T D) (dims : List D) (t : T) (word : Option Nat) :
    (pushed F dims t word).length = dims.length + trailingCount false word.isSome := by
  unfold pushed trailingCount
  cases word <;> simp

/-- The chunks of what is pushed. -/
theorem chunks_pushed {T D : Type} (F : Fields T D) (dims : List D) (t : T) (word : Option Nat) :
    chunksExact (constantBytes (pushed F dims t word))
        (dims.length + trailingCount false word.isSome) =
      (dims.map fun d => F.get d t).map le32 ++ word.toList.map le32 := by
  rw [← length_pushed F dims t word, chunksExact_constantBytes]
  exact List.map_append

end IreeRocket.Driver
