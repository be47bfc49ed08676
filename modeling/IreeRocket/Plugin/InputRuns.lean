import IreeRocket.Plugin.PromotedInputs

/-!
# Runs of a function

What operations compute is left open, but that it depends on the elements of their operands only: pads and
collapses are given. A run of a function has for every value what its operation computes from the operands;
what claimed operations give is any tensor. A function that uses values after they are defined has a run for
all that is claimed (`exists_run`).
-/

namespace IreeRocket.Plugin.ConvInputs

open Linalg

/-- What operations compute. -/
structure Interp where
  contraction : Kind → List (Option String) → List (Tensor Scalar) → List (Tensor Scalar) → Tensor Scalar
  generic : Region → List (Tensor Scalar) → List (Tensor Scalar) → Tensor Scalar
  other : String → List (Tensor Scalar) → Tensor Scalar
  fill : String → List (Tensor Scalar) → List Nat → Scalar
  amount : Tensor Scalar → Int
  contraction_same : ∀ kind attrs {xs xs' ys ys'}, List.Forall₂ Same xs xs' → List.Forall₂ Same ys ys' →
    Same (contraction kind attrs xs ys) (contraction kind attrs xs' ys')
  generic_same : ∀ region {xs xs' ys ys'}, List.Forall₂ Same xs xs' → List.Forall₂ Same ys ys' →
    Same (generic region xs ys) (generic region xs' ys')
  other_same : ∀ name {xs xs'}, List.Forall₂ Same xs xs' → Same (other name xs) (other name xs')
  fill_same : ∀ name {xs xs'}, List.Forall₂ Same xs xs' → fill name xs = fill name xs'
  amount_same : ∀ {t t'}, Same t t' → amount t = amount t'

variable {ι κ : Type}

/-! ### Operands -/

def Amount.operands : Amount ι → List ι
  | .static _ => []
  | .dynamic value => [value]

def Fill.operands : Fill ι → List ι
  | .constant _ => []
  | .region _ captures => captures

def Body.operands : Body ι → List ι
  | .contraction _ inputs inits _ | .generic _ inputs inits _ => inputs ++ inits
  | .pad source low high fill => source :: (low ++ high).flatMap Amount.operands ++ fill.operands
  | .collapse source _ => [source]
  | .call => []
  | .other _ operands => operands

/-! ### Values -/

/-- The attributes that an operation is computed by. -/
def shapeDefining (attrs : Attrs) : List (Option String) := kShapeDefiningAttrNames.map fun name => attrs.lookup name

section Eval

variable (interp : Interp) (env : ι → Tensor Scalar)

def Amount.eval : Amount ι → Int
  | .static amount => amount
  | .dynamic value => interp.amount (env value)

def Fill.eval : Fill ι → List Nat → Scalar
  | .constant value => fun _ => value
  | .region name captures => interp.fill name (captures.map env)

/-- What an operation computes. A claimed one is not computed. -/
def Body.eval : Body ι → Tensor Scalar
  | .contraction kind inputs inits attrs =>
    interp.contraction kind (shapeDefining attrs) (inputs.map env) (inits.map env)
  | .generic region inputs inits _ => interp.generic region (inputs.map env) (inits.map env)
  | .pad source low high fill =>
    padded (low.map (Amount.eval interp env)) (high.map (Amount.eval interp env)) (fill.eval interp env) (env source)
  | .collapse source reassociation => collapsed reassociation (env source)
  | .call => ⟨[], fun _ => .other 0⟩
  | .other name operands => interp.other name (operands.map env)

/-- Every value is what its operation computes, but for those that are claimed. -/
def Runs (f : Func ι) : Prop := ∀ op ∈ f, op.body ≠ .call → env op.result = op.body.eval interp env

/-- The groups of a collapse are all dimensions of its source. -/
def CollapsesFit (f : Func ι) : Prop := ∀ op ∈ f, ∀ source reassociation,
  op.body = .collapse source reassociation → reassociation.flatten = List.range (env source).shape.length

end Eval

variable {interp : Interp} {env : ι → Tensor Scalar}

theorem map_same {values : List ι} {env' : κ → Tensor Scalar} {φ : ι → κ}
    (h : ∀ v ∈ values, Same (env v) (env' (φ v))) :
    List.Forall₂ Same (values.map env) ((values.map φ).map env') := by
  refine List.forall₂_map_left_iff.mpr (List.forall₂_map_right_iff.mpr (List.forall₂_map_right_iff.mpr ?_))
  exact List.forall₂_same.mpr h

theorem amounts_same {amounts : List (Amount ι)} {env' : κ → Tensor Scalar} {φ : ι → κ}
    (h : ∀ v ∈ amounts.flatMap Amount.operands, Same (env v) (env' (φ v))) :
    amounts.map (Amount.eval interp env) = (amounts.map (Amount.map φ)).map (Amount.eval interp env') := by
  rw [List.map_map]
  refine List.map_congr_left fun amount hamount => ?_
  cases amount with
  | static n => rfl
  | dynamic v => exact interp.amount_same (h v (List.mem_flatMap.mpr ⟨_, hamount, List.mem_singleton_self v⟩))

/-- **An operation on other values** that are the same computes the same. -/
theorem eval_same {body : Body ι} {env' : κ → Tensor Scalar} {φ : ι → κ}
    (h : ∀ v ∈ body.operands, Same (env v) (env' (φ v)))
    (hfits : ∀ source reassociation, body = .collapse source reassociation →
      reassociation.flatten = List.range (env source).shape.length) :
    Same (body.eval interp env) ((body.map φ).eval interp env') := by
  cases body with
  | contraction kind inputs inits attrs =>
    exact interp.contraction_same _ _ (map_same fun v hv => h v (List.mem_append_left _ hv))
      (map_same fun v hv => h v (List.mem_append_right _ hv))
  | generic region inputs inits attrs =>
    exact interp.generic_same _ (map_same fun v hv => h v (List.mem_append_left _ hv))
      (map_same fun v hv => h v (List.mem_append_right _ hv))
  | pad source low high fill =>
    simp only [Body.operands, List.cons_append, List.mem_cons, List.mem_append, List.flatMap_append,
      forall_eq_or_imp] at h
    obtain ⟨hsource, h⟩ := h
    have hlow : low.map (Amount.eval interp env) = (low.map (Amount.map φ)).map (Amount.eval interp env') :=
      amounts_same fun v hv => h v (.inl (.inl hv))
    have hhigh : high.map (Amount.eval interp env) = (high.map (Amount.map φ)).map (Amount.eval interp env') :=
      amounts_same fun v hv => h v (.inl (.inr hv))
    have hfill : fill.eval interp env = (fill.map φ).eval interp env' := by
      cases fill with
      | constant value => rfl
      | region name captures => exact interp.fill_same name (map_same fun v hv => h v (.inr hv))
    simp only [Body.eval, Body.map]
    rw [← hlow, ← hhigh, ← hfill]
    exact padded_same hsource fun _ _ _ => rfl
  | collapse source reassociation =>
    have hsource := h source (List.mem_singleton_self _)
    exact (collapsed_same_iff hsource.shape (hfits source reassociation rfl)).mpr hsource
  | call => exact Same.refl _
  | other name operands => exact interp.other_same name (map_same h)

/-! ### Existence -/

/-- An operation computes from its operands. -/
theorem eval_congr {body : Body ι} {env' : ι → Tensor Scalar} (h : ∀ v ∈ body.operands, env v = env' v) :
    body.eval interp env = body.eval interp env' := by
  have hlist : ∀ {values : List ι}, (∀ v ∈ values, env v = env' v) → values.map env = values.map env' :=
    fun hvalues => List.map_congr_left hvalues
  cases body with
  | contraction kind inputs inits attrs =>
    simp only [Body.eval]
    rw [hlist fun v hv => h v (List.mem_append_left _ hv), hlist fun v hv => h v (List.mem_append_right _ hv)]
  | generic region inputs inits attrs =>
    simp only [Body.eval]
    rw [hlist fun v hv => h v (List.mem_append_left _ hv), hlist fun v hv => h v (List.mem_append_right _ hv)]
  | pad source low high fill =>
    simp only [Body.operands, List.cons_append, List.mem_cons, List.mem_append, List.flatMap_append,
      forall_eq_or_imp] at h
    obtain ⟨hsource, h⟩ := h
    have hamounts : ∀ {amounts : List (Amount ι)}, (∀ v ∈ amounts.flatMap Amount.operands, env v = env' v) →
        amounts.map (Amount.eval interp env) = amounts.map (Amount.eval interp env') := fun hvalues =>
      List.map_congr_left fun amount hamount => by
        cases amount with
        | static n => rfl
        | dynamic v =>
          exact congrArg interp.amount (hvalues v (List.mem_flatMap.mpr ⟨_, hamount, List.mem_singleton_self v⟩))
    have hfill : fill.eval interp env = fill.eval interp env' := by
      cases fill with
      | constant value => rfl
      | region name captures => exact congrArg (interp.fill name) (hlist fun v hv => h v (.inr hv))
    simp only [Body.eval]
    rw [hsource, hfill, hamounts fun v hv => h v (.inl (.inl hv)), hamounts fun v hv => h v (.inl (.inr hv))]
  | collapse source reassociation => exact congrArg (collapsed reassociation) (h source (List.mem_singleton_self _))
  | call => rfl
  | other name operands => exact congrArg (interp.other name) (hlist h)

/-- Operations use what is defined before them. -/
def Ordered (f : Func ι) (rank : ι → Nat) : Prop := ∀ op ∈ f, ∀ v ∈ op.body.operands, rank v < rank op.result

section Existence

variable [DecidableEq ι]

/-- The values of the operations up to a number of steps behind those that are claimed. -/
def valuesAfter (interp : Interp) (f : Func ι) (calls : ι → Tensor Scalar) : Nat → ι → Tensor Scalar
  | 0, v => calls v
  | steps + 1, v =>
    match bodyOf f v with
    | none | some .call => calls v
    | some body => body.eval interp (valuesAfter interp f calls steps)

/-- A value does not change once its operands have their values. -/
theorem valuesAfter_stable {f : Func ι} {rank : ι → Nat} (h : Ordered f rank) (calls : ι → Tensor Scalar)
    {n m : Nat} {v : ι} (hn : rank v < n) (hm : rank v < m) :
    valuesAfter interp f calls n v = valuesAfter interp f calls m v := by
  induction n generalizing m v with
  | zero => exact absurd hn (Nat.not_lt_zero _)
  | succ n ih =>
    cases m with
    | zero => exact absurd hm (Nat.not_lt_zero _)
    | succ m =>
      have heval : ∀ body, bodyOf f v = some body → body.eval interp (valuesAfter interp f calls n) =
          body.eval interp (valuesAfter interp f calls m) := fun body hbody => by
        obtain ⟨op, hop, hresult, hopBody⟩ := exists_of_bodyOf hbody
        refine eval_congr fun w hw => ?_
        have hrank := h op hop w (hopBody ▸ hw)
        rw [hresult] at hrank
        exact ih (by omega) (by omega)
      simp only [valuesAfter]
      split
      · rfl
      · rfl
      · rename_i hbody
        exact heval _ hbody

/-- Once every value has its operands' values, they are a run. -/
theorem runs_valuesAfter {f : Func ι} (honce : Once f) {rank : ι → Nat} (h : Ordered f rank)
    (calls : ι → Tensor Scalar) : Runs interp (fun v => valuesAfter interp f calls (rank v + 1) v) f := by
  intro op hop hcall
  have hvalue : valuesAfter interp f calls (rank op.result + 1) op.result =
      op.body.eval interp (valuesAfter interp f calls (rank op.result)) := by
    rw [valuesAfter, honce.bodyOf hop]
    split
    · contradiction
    · rename_i heq
      exact absurd (Option.some.inj heq) hcall
    · rename_i heq
      rw [Option.some.inj heq]
  refine hvalue.trans (eval_congr fun v hv => ?_)
  exact valuesAfter_stable h calls (h op hop v hv) (Nat.lt_succ_self _)

/-- **There is a run** for all that is claimed. -/
theorem exists_run (interp : Interp) {f : Func ι} (honce : Once f) {rank : ι → Nat} (h : Ordered f rank)
    (calls : ι → Tensor Scalar) :
    ∃ env, Runs interp env f ∧ ∀ op ∈ f, op.body = .call → env op.result = calls op.result := by
  refine ⟨_, runs_valuesAfter honce h calls, fun op hop hcall => ?_⟩
  have hvalue : valuesAfter interp f calls (rank op.result + 1) op.result = calls op.result := by
    rw [valuesAfter, honce.bodyOf hop, hcall]
  exact hvalue

end Existence

end IreeRocket.Plugin.ConvInputs
