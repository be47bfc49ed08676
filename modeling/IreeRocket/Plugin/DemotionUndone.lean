import IreeRocket.Plugin.RestoredInputs

/-!
# Demotion is undone, the sign of a zero apart

Behind both passes every operation that was not claimed stands where it was, and a contraction has its
attributes and inputs of its types. An input that was demoted through a pad reads that pad again, but with
the positive zero for what it filled with. So in a run the contractions read what they read originally exactly
where no pad shows a negative zero.
-/

namespace IreeRocket.Plugin.ConvInputs

open Linalg

variable {ι : Type} {interp : Interp} {env : ι → Tensor Scalar} {env' : Extended (Extended ι) → Tensor Scalar}

theorem static_eval {amounts : List (Amount ι)} (h : amounts.all Amount.isStatic) :
    (amounts.map (Amount.map original)).map (Amount.eval interp env') = amounts.map (Amount.eval interp env) := by
  rw [List.map_map]
  refine List.map_congr_left fun amount hamount => ?_
  cases amount with
  | static n => rfl
  | dynamic v => exact absurd (List.all_eq_true.mp h _ hamount) (by simp [Amount.isStatic])

theorem claimOp_of_body {claimed : ι → Bool} {op : Op ι} (h : (claimOp claimed op).body ≠ .call) :
    claimOp claimed op = op := by
  unfold claimOp at h ⊢
  split
  · rfl
  · rfl
  · split_ifs with hclaimed
    · simp [hclaimed] at h
    · rfl

variable [DecidableEq ι] {f : Func ι} {depthwise : Bool} {claimed : ι → Bool} {f' : Func (Extended (Extended ι))}

/-! ### One input -/

/-- What the pad of an input shows is the positive zero. -/
def ShowsPositiveZero (interp : Interp) (env : ι → Tensor Scalar) (f : Func ι) (value : ι) : Prop :=
  ∀ input, demotedThrough f value = some input →
    ShowsFill (input.low.map (Amount.eval interp env)) (input.high.map (Amount.eval interp env))
      (env input.source).shape → input.fill = .constant (.f32 0)

/-- A pad or a collapse is computed in every run. -/
theorem computed_of_body (henv : Runs interp env (claim claimed f)) {v : ι} {body : Body ι}
    (h : bodyOf f v = some body) (hform : ∀ op : Op ι, op.body = body → claimOp claimed op = op)
    (hcall : body ≠ .call) : env v = body.eval interp env := by
  obtain ⟨op, hop, rfl, rfl⟩ := exists_of_bodyOf h
  exact henv op (List.mem_map.mpr ⟨op, hop, hform op rfl⟩) hcall

/-- **What stands for an input is the input**, exactly if the pad shows no other zero. -/
theorem input_same_iff (henv : Runs interp env (claim claimed f)) (hfits : CollapsesFit env f)
    (henv' : Runs interp env' f') {fresh : Role → Extended (Extended ι)} {value : ι}
    (hmade : ∀ q ∈ (restoredInput f fresh value).1, q ∈ f') (hvalue : Same (env value) (env' (original value)))
    (hsource : ∀ input, demotedThrough f value = some input →
      Same (env input.source) (env' (original input.source))) :
    Same (env value) (env' (restoredInput f fresh value).2) ↔ ShowsPositiveZero interp env f value := by
  unfold restoredInput at hmade ⊢
  unfold ShowsPositiveZero
  cases hthrough : demotedThrough f value with
  | none => exact iff_of_true hvalue fun input h => by cases h
  | some input =>
    rw [hthrough] at hmade
    obtain ⟨hinput, hlow, hhigh, ⟨fill, hfill, -⟩, -⟩ := demotedThrough_some hthrough
    obtain ⟨padValue, hpad, -, hcollapse⟩ := paddedInput_some hinput
    have hpadded : env padValue = padded (input.low.map (Amount.eval interp env))
        (input.high.map (Amount.eval interp env)) (fun _ => fill) (env input.source) := by
      rw [hfill] at hpad
      exact computed_of_body henv hpad (fun op hbody => by unfold claimOp; rw [hbody]) (by simp)
    have hpadded' : ∀ {type : ValueType}, (⟨fresh .padded, type, .pad (original input.source)
          (input.low.map (Amount.map original)) (input.high.map (Amount.map original)) (.constant (.f32 0))⟩ :
            Op (Extended (Extended ι))) ∈ f' →
        env' (fresh .padded) = padded (input.low.map (Amount.eval interp env))
          (input.high.map (Amount.eval interp env)) (fun _ => .f32 0) (env' (original input.source)) := fun hq => by
      have hrun := henv' _ hq (by simp)
      have hlow' : (input.low.map (Amount.map original)).map (Amount.eval interp env') =
        input.low.map (Amount.eval interp env) := static_eval hlow
      have hhigh' : (input.high.map (Amount.map original)).map (Amount.eval interp env') =
        input.high.map (Amount.eval interp env) := static_eval hhigh
      simp only [Body.eval, hlow', hhigh'] at hrun
      exact hrun
    have hzero : (∀ input', some input = some input' → ShowsFill (input'.low.map (Amount.eval interp env))
        (input'.high.map (Amount.eval interp env)) (env input'.source).shape → input'.fill = .constant (.f32 0)) ↔
          (ShowsFill (input.low.map (Amount.eval interp env)) (input.high.map (Amount.eval interp env))
            (env input.source).shape → fill = .f32 0) := by
      simp [hfill]
    rw [hzero, ← padded_same_iff (hsource input hthrough), ← hpadded]
    cases hform : input.collapse with
    | none =>
      rw [hform] at hcollapse
      simp only [hform, List.mem_singleton, forall_eq] at hmade ⊢
      rw [← hpadded' hmade, hcollapse]
    | some collapse =>
      rw [hform] at hcollapse
      simp only [hform, List.mem_cons, List.not_mem_nil, or_false, forall_eq_or_imp, forall_eq] at hmade ⊢
      have hcollapsed : env value = collapsed collapse.2 (env padValue) :=
        computed_of_body henv hcollapse.1 (fun op hbody => by unfold claimOp; rw [hbody]) (by simp)
      have hcollapsed' : env' (fresh (.collapsed 0)) = collapsed collapse.2 (env' (fresh .padded)) :=
        henv' _ hmade.2 (by simp)
      have hshape : (env padValue).shape = (env' (fresh .padded)).shape := by
        rw [hpadded, hpadded' hmade.1]
        exact congrArg (paddedShape _ _) (hsource input hthrough).shape
      obtain ⟨op, hop, hresult, hbody⟩ := exists_of_bodyOf hcollapse.1
      rw [hcollapsed, hcollapsed', collapsed_same_iff hshape (hfits op hop _ _ hbody), hpadded' hmade.1]

/-! ### All values -/

/-- The runs of both functions have the same for what is claimed. -/
def AgreeOnCalls (claimed : ι → Bool) (f : Func ι) (env : ι → Tensor Scalar)
    (env' : Extended (Extended ι) → Tensor Scalar) : Prop :=
  ∀ op ∈ f, (claimOp claimed op).body = .call → Same (env op.result) (env' (original op.result))

/-- The values that stand for the inputs of an operation. -/
def restoredInputs (f : Func ι) (owner : ι) (inputs : List ι) : List (Extended (Extended ι)) :=
  (inputs.mapIdx fun i value => restoredInput f (.new (.old owner) i) value).map Prod.snd

theorem restoredInputs_same {owner : ι} {inputs : List ι} :
    (List.Forall₂ (fun value v => Same (env value) (env' v)) inputs (restoredInputs f owner inputs)) ↔
      ∀ i value, inputs[i]? = some value →
        Same (env value) (env' (restoredInput f (.new (.old owner) i) value).2) := by
  rw [List.forall₂_iff_get]
  constructor
  · rintro ⟨-, h⟩ i value hvalue
    obtain ⟨hi, rfl⟩ := List.getElem?_eq_some_iff.mp hvalue
    simpa [restoredInputs] using h i hi (by simpa [restoredInputs] using hi)
  · refine fun h => ⟨by simp [restoredInputs], fun i hi hi' => ?_⟩
    simpa [restoredInputs] using h i inputs[i] (List.getElem?_eq_getElem hi)

/-- An operation whose operands are the same has the same result. -/
theorem result_same (hmem : ∀ q, q ∈ f' ↔ Promoted depthwise claimed f q)
    (henv : Runs interp env (claim claimed f)) (hfits : CollapsesFit env f) (henv' : Runs interp env' f')
    (hcalls : AgreeOnCalls claimed f env env') {op : Op ι} (hop : op ∈ f)
    (hoperands : ∀ v ∈ op.body.operands, Same (env v) (env' (original v)))
    (hreads : ∀ kind inputs inits attrs, Unclaimed depthwise claimed f op kind inputs inits attrs →
      List.Forall₂ (fun value v => Same (env value) (env' v)) inputs (restoredInputs f op.result inputs)) :
    Same (env op.result) (env' (original op.result)) := by
  by_cases hcall : (claimOp claimed op).body = .call
  · exact hcalls op hop hcall
  have hclaimOp := claimOp_of_body hcall
  have hrun : env op.result = op.body.eval interp env :=
    henv op (List.mem_map.mpr ⟨op, hop, hclaimOp⟩) (hclaimOp ▸ hcall)
  by_cases h : ∃ kind inputs inits attrs, Unclaimed depthwise claimed f op kind inputs inits attrs
  · obtain ⟨kind, inputs, inits, attrs, h⟩ := h
    have hrun' : env' (original op.result) = _ := henv' _ ((hmem _).mpr (.restored hop h)) (by simp [restoredOp])
    have hinits : List.Forall₂ Same (inits.map env) ((inits.map original).map env') :=
      map_same fun v hv => hoperands v (h.body ▸ List.mem_append_right _ hv)
    have hinputs : List.Forall₂ Same (inputs.map env) ((restoredInputs f op.result inputs).map env') :=
      List.forall₂_map_left_iff.mpr (List.forall₂_map_right_iff.mpr (hreads _ _ _ _ h))
    rw [hrun, hrun', h.body]
    simp only [Body.eval, restoredOp, shapeDefining_restored h.untagged]
    exact interp.contraction_same kind _ hinputs hinits
  · have hnot : ∀ kind inputs inits attrs, ¬ Unclaimed depthwise claimed f op kind inputs inits attrs :=
      fun kind inputs inits attrs hunclaimed => h ⟨kind, inputs, inits, attrs, hunclaimed⟩
    have hq : op.map original ∈ f' := (hmem _).mpr (by
      have hleft : Promoted depthwise claimed f _ := .left hop hnot
      rwa [hclaimOp] at hleft)
    have hcall' : (op.map original).body ≠ .call := by
      rw [hclaimOp] at hcall
      cases hbody : op.body with
      | call => exact absurd hbody hcall
      | _ => simp [Op.map, Body.map, hbody]
    have hrun' : env' (original op.result) = (op.body.map original).eval interp env' := henv' _ hq hcall'
    rw [hrun, hrun']
    exact eval_same hoperands fun source reassociation hbody => hfits op hop source reassociation hbody

/-- What a demoted input reads is defined. -/
theorem source_defined (hf : WellFormed f) {value : ι} {input : PaddedInput ι}
    (h : demotedThrough f value = some input) : ∃ op ∈ f, op.result = input.source := by
  obtain ⟨padValue, hpad, -, -⟩ := paddedInput_some (demotedThrough_some h).1
  obtain ⟨op, hop, -, hbody⟩ := exists_of_bodyOf hpad
  exact hf.defined op hop _ (hbody ▸ List.mem_cons_self)

/-- **An operation reads the same** exactly if no pad of its inputs shows another zero. -/
theorem inputs_same_iff (hf : WellFormed f) (hmem : ∀ q, q ∈ f' ↔ Promoted depthwise claimed f q)
    (henv : Runs interp env (claim claimed f)) (hfits : CollapsesFit env f) (henv' : Runs interp env' f')
    {rank : ι → Nat} (hordered : Ordered f rank) {op : Op ι} (hop : op ∈ f) {kind : Kind} {inputs inits : List ι}
    {attrs : Attrs} (h : Unclaimed depthwise claimed f op kind inputs inits attrs)
    (hbelow : ∀ op' ∈ f, rank op'.result < rank op.result → Same (env op'.result) (env' (original op'.result))) :
    List.Forall₂ (fun value v => Same (env value) (env' v)) inputs (restoredInputs f op.result inputs) ↔
      ∀ value ∈ inputs, ShowsPositiveZero interp env f value := by
  have hoperand : ∀ value ∈ inputs, value ∈ op.body.operands := fun value hvalue =>
    h.body ▸ List.mem_append_left _ hvalue
  have hvalues : ∀ value ∈ inputs, Same (env value) (env' (original value)) := fun value hvalue => by
    obtain ⟨op', hop', rfl⟩ := hf.defined op hop value (hoperand value hvalue)
    exact hbelow op' hop' (hordered op hop _ (hoperand _ hvalue))
  have hsources : ∀ value ∈ inputs, ∀ input, demotedThrough f value = some input →
      Same (env input.source) (env' (original input.source)) := fun value hvalue input hthrough => by
    obtain ⟨op', hop', hresult⟩ := source_defined hf hthrough
    have hrank := source_rank hordered (demotedThrough_some hthrough).1
    rw [← hresult] at hrank ⊢
    exact hbelow op' hop' (hrank.trans (hordered op hop value (hoperand value hvalue)))
  have hinput : ∀ i value, inputs[i]? = some value →
      (Same (env value) (env' (restoredInput f (.new (.old op.result) i) value).2) ↔
        ShowsPositiveZero interp env f value) := fun i value hvalue =>
    input_same_iff henv hfits henv' (fun q hq => (hmem q).mpr (.rebuilt hop h hvalue hq))
      (hvalues value (List.mem_of_getElem? hvalue)) (hsources value (List.mem_of_getElem? hvalue))
  rw [restoredInputs_same]
  constructor
  · intro hreads value hvalue
    obtain ⟨i, hi⟩ := List.getElem?_of_mem hvalue
    exact (hinput i value hi).mp (hreads i value hi)
  · exact fun hzeros i value hvalue => (hinput i value hvalue).mpr (hzeros value (List.mem_of_getElem? hvalue))

/-- **All values are the same** where every operation reads the same once the values before it are. -/
theorem values_same (hf : WellFormed f) (hmem : ∀ q, q ∈ f' ↔ Promoted depthwise claimed f q)
    (henv : Runs interp env (claim claimed f)) (hfits : CollapsesFit env f) (henv' : Runs interp env' f')
    (hcalls : AgreeOnCalls claimed f env env') {rank : ι → Nat} (hordered : Ordered f rank)
    (hreads : ∀ op ∈ f, (∀ op' ∈ f, rank op'.result < rank op.result →
        Same (env op'.result) (env' (original op'.result))) →
      ∀ kind inputs inits attrs, Unclaimed depthwise claimed f op kind inputs inits attrs →
        List.Forall₂ (fun value v => Same (env value) (env' v)) inputs (restoredInputs f op.result inputs)) :
    ∀ op ∈ f, Same (env op.result) (env' (original op.result)) := by
  -- on the rank of the value
  have hranked : ∀ n, ∀ op ∈ f, rank op.result < n → Same (env op.result) (env' (original op.result)) := by
    intro n
    induction n with
    | zero => exact fun op _ hn => absurd hn (Nat.not_lt_zero _)
    | succ n ih =>
      intro op hop hn
      have hbelow : ∀ op' ∈ f, rank op'.result < rank op.result →
          Same (env op'.result) (env' (original op'.result)) := fun op' hop' hrank => ih op' hop' (by omega)
      refine result_same hmem henv hfits henv' hcalls hop (fun v hv => ?_) (hreads op hop hbelow)
      obtain ⟨op', hop', rfl⟩ := hf.defined op hop v hv
      exact hbelow op' hop' (hordered op hop _ hv)
  exact fun op hop => hranked _ op hop (Nat.lt_succ_self _)

/-! ### The function behind both passes -/

/-- What is no unclaimed contraction of the demotion stands where it was. An unclaimed contraction has its type,
its accumulators, its attributes and inputs of its types, and reads what it read in every run with the same for
what is claimed. There are no further contractions. -/
structure Undone (interp : Interp) (env : ι → Tensor Scalar) (depthwise : Bool) (claimed : ι → Bool) (f : Func ι)
    (f' : Func (Extended (Extended ι))) : Prop where
  once : Once f'
  left : ∀ op ∈ f, (∀ kind inputs inits attrs, ¬ Unclaimed depthwise claimed f op kind inputs inits attrs) →
    (claimOp claimed op).map original ∈ f'
  contractions : ∀ q ∈ f', ∀ kind inputs inits attrs, q.body = .contraction kind inputs inits attrs →
    ∃ op ∈ f, q.result = original op.result
  restored : ∀ op ∈ f, ∀ kind inputs inits attrs, op.body = .contraction kind inputs inits attrs →
    ¬ claimed op.result → ∃ inputs' attrs',
      ⟨original op.result, op.type, .contraction kind inputs' (inits.map original) attrs'⟩ ∈ f' ∧
      (∀ name, isCarried kind name → attrs'.lookup name = attrs.lookup name) ∧
      inputs'.map (typeOf f') = inputs.map (typeOf f) ∧
      ∀ env', Runs interp env' f' → AgreeOnCalls claimed f env env' →
        List.Forall₂ (fun value v => Same (env value) (env' v)) inputs inputs'

/-- The pads that are demoted through for unclaimed contractions show the positive zero, if any. -/
def ZerosKept (interp : Interp) (env : ι → Tensor Scalar) (depthwise : Bool) (claimed : ι → Bool)
    (f : Func ι) : Prop :=
  ∀ op ∈ f, ∀ kind inputs inits attrs, Unclaimed depthwise claimed f op kind inputs inits attrs →
    ∀ value ∈ inputs, ShowsPositiveZero interp env f value

/-- Every further contraction is one of the function's. -/
theorem contraction_original (hmem : ∀ q, q ∈ f' ↔ Promoted depthwise claimed f q) :
    ∀ q ∈ f', ∀ kind inputs inits attrs, q.body = .contraction kind inputs inits attrs →
      ∃ op ∈ f, q.result = original op.result := by
  intro q hq kind inputs inits attrs hbody
  cases (hmem q).mp hq with
  | @left op hop hnot => exact ⟨op, hop, congrArg original (claimOp_result claimed op)⟩
  | @restored op _ _ _ _ hop h => exact ⟨op, hop, rfl⟩
  | @rebuilt op _ _ _ _ hop h i value hvalue q hmade =>
    unfold restoredInput at hmade
    split at hmade
    · split at hmade
      · obtain rfl := List.mem_singleton.mp hmade
        cases hbody
      · simp only [List.mem_cons, List.not_mem_nil, or_false] at hmade
        rcases hmade with rfl | rfl
        · cases hbody
        · cases hbody
    · cases hmade
  | @created op _ _ _ _ hop h i value hvalue q hmade =>
    cases hmadeBody : q.body with
    | contraction kind' inputs' inits' attrs' => exact absurd hmadeBody (demoteInput_body hmade)
    | _ => simp [Op.map, Body.map, hmadeBody] at hbody

/-- There is a run with the values of the original one for what is claimed. -/
theorem exists_agreeing (hf : WellFormed f) (hmem : ∀ q, q ∈ f' ↔ Promoted depthwise claimed f q) (interp : Interp)
    (env : ι → Tensor Scalar) : ∃ env', Runs interp env' f' ∧ AgreeOnCalls claimed f env env' := by
  obtain ⟨rank, hordered⟩ := hf.ordered
  obtain ⟨env', henv', hcalls⟩ := exists_run interp (hf.once.promoted hmem) (hordered.promoted hmem) fun v =>
    env v.root.root
  refine ⟨env', henv', fun op hop hcall => ?_⟩
  have hnot : ∀ kind inputs inits attrs, ¬ Unclaimed depthwise claimed f op kind inputs inits attrs :=
    fun kind inputs inits attrs h => by
      rw [claimOp_of_not h.unclaimed, h.body] at hcall
      cases hcall
  have hvalue := hcalls _ ((hmem _).mpr (.left hop hnot)) (by simp [Op.map, hcall, Body.map])
  simp only [Op.map, claimOp_result] at hvalue
  rw [hvalue]
  exact Same.refl _

/-- **Demotion is undone exactly where no pad shows a negative zero.** Promotion never fails, and what it leaves
is undone if and only if the pads show no other zero than the positive one. -/
theorem demotion_undone_iff (hf : WellFormed f) (henv : Runs interp env (claim claimed f))
    (hfits : CollapsesFit env f) :
    (∃ f', promote (claim (claimedOf claimed) (demote depthwise f)) = some f' ∧
      Undone interp env depthwise claimed f f') ↔ ZerosKept interp env depthwise claimed f := by
  obtain ⟨f', hf', hmem⟩ : ∃ f', promote (between depthwise claimed f) = some f' ∧
      ∀ q, q ∈ f' ↔ Promoted depthwise claimed f q := promote_between hf.once hf.untagged
  obtain ⟨rank, hordered⟩ := hf.ordered
  have honce' := hf.once.promoted hmem
  constructor
  · rintro ⟨f'', hf'', hundone⟩
    obtain rfl : f' = f'' := Option.some.inj (hf'.symm.trans hf'')
    obtain ⟨env', henv', hcalls⟩ := exists_agreeing hf hmem interp env
    have hreads : ∀ op ∈ f, ∀ kind inputs inits attrs, Unclaimed depthwise claimed f op kind inputs inits attrs →
        List.Forall₂ (fun value v => Same (env value) (env' v)) inputs (restoredInputs f op.result inputs) := by
      intro op hop kind inputs inits attrs h
      obtain ⟨inputs', attrs', hq, -, -, hreads⟩ := hundone.restored op hop _ _ _ _ h.body h.unclaimed
      have hsame := honce' _ hq _ ((hmem _).mpr (.restored hop h)) rfl
      simp only [restoredOp, Op.mk.injEq, Body.contraction.injEq] at hsame
      have hinputs : inputs' = restoredInputs f op.result inputs := hsame.2.2.2.1
      exact hinputs ▸ hreads env' henv' hcalls
    have hvalues := values_same hf hmem henv hfits henv' hcalls hordered fun op hop _ => hreads op hop
    intro op hop kind inputs inits attrs h
    exact (inputs_same_iff hf hmem henv hfits henv' hordered hop h fun op' hop' _ => hvalues op' hop').mp
      (hreads op hop _ _ _ _ h)
  · intro hzeros
    refine ⟨f', hf', honce', fun op hop hnot => (hmem _).mpr (.left hop hnot), contraction_original hmem, ?_⟩
    have hreads : ∀ env', Runs interp env' f' → AgreeOnCalls claimed f env env' →
        (∀ op ∈ f, Same (env op.result) (env' (original op.result))) ∧
          ∀ op ∈ f, ∀ kind inputs inits attrs, Unclaimed depthwise claimed f op kind inputs inits attrs →
            List.Forall₂ (fun value v => Same (env value) (env' v)) inputs (restoredInputs f op.result inputs) := by
      intro env' henv' hcalls
      have hvalues := values_same hf hmem henv hfits henv' hcalls hordered fun op hop hbelow _ _ _ _ h =>
        (inputs_same_iff hf hmem henv hfits henv' hordered hop h hbelow).mpr (hzeros op hop _ _ _ _ h)
      exact ⟨hvalues, fun op hop _ _ _ _ h => (inputs_same_iff hf hmem henv hfits henv' hordered hop h
        fun op' hop' _ => hvalues op' hop').mpr (hzeros op hop _ _ _ _ h)⟩
    intro op hop kind inputs inits attrs hbody hclaimed
    have hdefined : ∀ value ∈ inputs, ∃ op' ∈ f, op'.result = value := fun value hvalue =>
      hf.defined op hop value (hbody ▸ List.mem_append_left _ hvalue)
    by_cases h : Unclaimed depthwise claimed f op kind inputs inits attrs
    · refine ⟨_, _, (hmem _).mpr (.restored hop h), fun name hname => lookup_restored h.untagged hname, ?_,
        fun env' henv' hcalls => (hreads env' henv' hcalls).2 op hop _ _ _ _ h⟩
      refine List.ext_getElem? fun i => ?_
      cases hvalue : inputs[i]? with
      | none => simp [hvalue]
      | some value =>
        have htype := typeOf_restoredInput hmem hf.once honce' hop h hvalue
          (hdefined value (List.mem_of_getElem? hvalue))
        simp [hvalue, htype]
    · have hnot : ∀ kind inputs inits attrs, ¬ Unclaimed depthwise claimed f op kind inputs inits attrs :=
        fun kind' inputs' inits' attrs' h' => by
          obtain ⟨rfl, rfl, rfl, rfl⟩ := h'.same hbody
          exact h h'
      have hleft := (hmem _).mpr (.left hop hnot)
      rw [claimOp_of_not hclaimed, Op.map, hbody] at hleft
      refine ⟨inputs.map original, attrs, hleft, fun name _ => rfl, ?_, fun env' henv' hcalls => ?_⟩
      · rw [List.map_map]
        refine List.map_congr_left fun value hvalue => ?_
        obtain ⟨op', hop', rfl⟩ := hdefined value hvalue
        exact typeOf_original hmem hf.once honce' hop'
      · refine List.forall₂_map_right_iff.mpr (List.forall₂_same.mpr fun value hvalue => ?_)
        obtain ⟨op', hop', rfl⟩ := hdefined value hvalue
        exact (hreads env' henv' hcalls).1 op' hop'

/-! ### A matmul over a pad -/

/-- What an operation can tell of a tensor. -/
def seen (t : Tensor Scalar) : List Nat × (List Nat → Scalar) :=
  ⟨t.shape, fun p => if List.Forall₂ (· < ·) p t.shape then t.elem p else .other 0⟩

theorem map_seen {xs ys : List (Tensor Scalar)} (h : List.Forall₂ Same xs ys) : xs.map seen = ys.map seen := by
  induction h with
  | nil => rfl
  | @cons x y xs ys hxy _ ih =>
    have hseen : seen x = seen y := by
      refine Prod.ext hxy.shape (funext fun p => ?_)
      simp only [seen, ← hxy.shape]
      split_ifs with hp
      · exact hxy.elem p hp
      · rfl
    rw [List.map_cons, List.map_cons, hseen, ih]

/-- Some sums: the negative zero is neutral. -/
def addF32 : Scalar → Scalar → Scalar
  | x, y => if y = .f32 0x80000000 then x else if x = .f32 0x80000000 then y else .f32 0x7fc00000

/-- Some products: one is neutral. -/
def mulF32 : Scalar → Scalar → Scalar
  | x, y => if y = .f32 0x3f800000 then x else if x = .f32 0x3f800000 then y else .f32 0x7fc00000

/-- Some reciprocals: those of zeros and of one. -/
def reciprocalF32 (x : Scalar) : Scalar :=
  if x = .f32 0 then .f32 0x7f800000 else if x = .f32 0x80000000 then .f32 0xff800000
  else if x = .f32 0x3f800000 then x else .f32 0x7fc00000

/-- Some roundings: of zeros and of one. -/
def truncF32 (x : Scalar) : Scalar :=
  if x = .f32 0 then .f16 0 else if x = .f32 0x80000000 then .f16 0x8000
  else if x = .f32 0x3f800000 then .f16 0x3c00 else .f16 0x7e00

def matmulOf : List (List Nat × (List Nat → Scalar)) → List (List Nat × (List Nat → Scalar)) → Tensor Scalar
  | [a, b], [c] => ⟨c.1, fun p => (List.range (b.1.headD 0)).foldl
      (fun acc k => addF32 acc (mulF32 (a.2 [p.headD 0, k]) (b.2 [k, p.getD 1 0]))) (c.2 p)⟩
  | _, _ => ⟨[], fun _ => .other 0⟩

def elementwise (g : Scalar → Scalar) : List (List Nat × (List Nat → Scalar)) → Tensor Scalar
  | x :: _ => ⟨x.1, fun p => g (x.2 p)⟩
  | [] => ⟨[], fun _ => .other 0⟩

def otherOf : String → List (List Nat × (List Nat → Scalar)) → Tensor Scalar
  | "one", _ => ⟨[1, 1], fun _ => .f32 0x3f800000⟩
  | "negative_zeros", _ => ⟨[2, 1], fun _ => .f32 0x80000000⟩
  | "reciprocal", xs => elementwise reciprocalF32 xs
  | _, _ => ⟨[], fun _ => .other 0⟩

/-- Matmuls, truncations and reciprocals of zeros and ones. -/
def zerosAndOnes : Interp where
  contraction _ _ xs ys := matmulOf (xs.map seen) (ys.map seen)
  generic _ xs _ := elementwise truncF32 (xs.map seen)
  other name xs := otherOf name (xs.map seen)
  fill _ _ _ := .other 0
  amount _ := 0
  contraction_same _ _ _ _ _ _ hxs hys := by
    rw [map_seen hxs, map_seen hys]
    exact Same.refl _
  generic_same _ _ _ _ _ hxs _ := by
    rw [map_seen hxs]
    exact Same.refl _
  other_same name _ _ hxs := by
    rw [map_seen hxs]
    exact Same.refl _
  fill_same _ _ _ _ := rfl
  amount_same _ := rfl

/-- A matmul over a pad, and one that reads the reciprocals of the first. -/
def paddedMatmul (fill : BitVec 32) : Func Nat :=
  [⟨0, .ranked [some 1, some 1] .f32, .other "one" []⟩,
   ⟨1, .ranked [some 2, some 1] .f32, .pad 0 [.static 1, .static 0] [.static 0, .static 0] (.constant (.f32 fill))⟩,
   ⟨2, .ranked [some 2, some 1] .f32, .other "negative_zeros" []⟩,
   ⟨3, .ranked [some 2, some 1] .f32, .contraction .matmul [1, 0] [2] []⟩,
   ⟨4, .ranked [some 2, some 1] .f32, .other "reciprocal" [3]⟩,
   ⟨5, .ranked [some 2, some 1] .f32, .contraction .matmul [4, 0] [2] []⟩]

def valuesOf (fill : BitVec 32) (v : Nat) : Tensor Scalar :=
  valuesAfter zerosAndOnes (paddedMatmul fill) (fun _ => ⟨[], fun _ => .other 0⟩) (v + 1) v

theorem wellFormed_paddedMatmul (fill : BitVec 32) : WellFormed (paddedMatmul fill) where
  once := by simp [Once, paddedMatmul]
  untagged := by simp +contextual [Untagged, paddedMatmul, hasAttr]
  defined := by simp [paddedMatmul, Body.operands, Amount.operands, Fill.operands]
  ordered := ⟨id, by simp [Ordered, paddedMatmul, Body.operands, Amount.operands, Fill.operands]⟩

theorem ordered_paddedMatmul (fill : BitVec 32) : Ordered (paddedMatmul fill) id := by
  simp [Ordered, paddedMatmul, Body.operands, Amount.operands, Fill.operands]

theorem runs_paddedMatmul (fill : BitVec 32) :
    Runs zerosAndOnes (valuesOf fill) (claim (fun _ => false) (paddedMatmul fill)) :=
  runs_valuesAfter (wellFormed_paddedMatmul fill).once (ordered_paddedMatmul fill) _

theorem fits_paddedMatmul (fill : BitVec 32) : CollapsesFit (valuesOf fill) (paddedMatmul fill) := by
  simp [CollapsesFit, paddedMatmul]

/-- The matmul over the pad behind both passes. -/
def restoredMatmul (fill : BitVec 32) : Func (Extended (Extended Nat)) :=
  (promote (claim (claimedOf fun _ => false) (demote false (paddedMatmul fill)))).getD []

def restoredValuesOf (fill : BitVec 32) (v : Extended (Extended Nat)) : Tensor Scalar :=
  valuesAfter zerosAndOnes (restoredMatmul fill) (fun _ => ⟨[], fun _ => .other 0⟩) (rankBehind id v + 1) v

/-- The second matmul is demoted. -/
theorem unclaimed_paddedMatmul (fill : BitVec 32) : Unclaimed false (fun _ => false) (paddedMatmul fill)
    ⟨5, .ranked [some 2, some 1] .f32, .contraction .matmul [4, 0] [2] []⟩ .matmul [4, 0] [2] [] where
  body := rfl
  enabled := rfl
  untagged := by decide
  ranked := by
    intro operand hoperand
    simp only [List.cons_append, List.nil_append, List.mem_cons, List.not_mem_nil, or_false] at hoperand
    rcases hoperand with rfl | rfl | rfl <;> rfl
  unclaimed := by simp

/-- A pad with the positive zero. -/
theorem demotion_undone_iff_zero : ∃ f', promote (claim (claimedOf fun _ => false) (demote false (paddedMatmul 0))) =
    some f' ∧ Undone zerosAndOnes (valuesOf 0) false (fun _ => false) (paddedMatmul 0) f' := by
  refine (demotion_undone_iff (wellFormed_paddedMatmul 0) (runs_paddedMatmul 0) (fits_paddedMatmul 0)).mpr ?_
  intro op hop kind inputs inits attrs h value hvalue input hthrough _
  obtain ⟨padValue, hpad, -, -⟩ := paddedInput_some (demotedThrough_some hthrough).1
  obtain ⟨pad, hmem, -, hbody⟩ := exists_of_bodyOf hpad
  simp only [paddedMatmul, List.mem_cons, List.not_mem_nil, or_false] at hmem
  rcases hmem with rfl | rfl | rfl | rfl | rfl | rfl
  case inr.inl =>
    simp only [Body.pad.injEq] at hbody
    exact hbody.2.2.2.symm
  all_goals cases hbody

/-- **The sign of a zero is lost:** a matmul that reads reciprocals reads the positive infinity for the negative. -/
theorem negative_zero_lost :
    promote (claim (claimedOf fun _ => false) (demote false (paddedMatmul 0x80000000))) =
        some (restoredMatmul 0x80000000) ∧
      Runs zerosAndOnes (restoredValuesOf 0x80000000) (restoredMatmul 0x80000000) ∧
      (valuesOf 0x80000000 4).elem [0, 0] = .f32 0xff800000 ∧
      (restoredValuesOf 0x80000000 (original 4)).elem [0, 0] = .f32 0x7f800000 ∧
      ¬ ∃ f', promote (claim (claimedOf fun _ => false) (demote false (paddedMatmul 0x80000000))) = some f' ∧
        Undone zerosAndOnes (valuesOf 0x80000000) false (fun _ => false) (paddedMatmul 0x80000000) f' := by
  have hf := wellFormed_paddedMatmul 0x80000000
  have hvalue : (valuesOf 0x80000000 4).elem [0, 0] = .f32 0xff800000 := by decide +kernel
  have hvalue' : (restoredValuesOf 0x80000000 (original 4)).elem [0, 0] = .f32 0x7f800000 := by decide +kernel
  obtain ⟨f', hf', hmem⟩ := promote_between hf.once hf.untagged
  have hpromoted : restoredMatmul 0x80000000 = f' := congrArg (Option.getD · []) hf'
  have hruns : Runs zerosAndOnes (restoredValuesOf 0x80000000) (restoredMatmul 0x80000000) := by
    rw [← hpromoted] at hmem
    exact runs_valuesAfter (hf.once.promoted hmem) ((ordered_paddedMatmul _).promoted hmem) _
  refine ⟨hpromoted ▸ hf', hruns, hvalue, hvalue', ?_⟩
  rintro ⟨f'', hf'', hundone⟩
  obtain rfl : f' = f'' := Option.some.inj (hf'.symm.trans hf'')
  have hop : (⟨5, .ranked [some 2, some 1] .f32, .contraction .matmul [4, 0] [2] []⟩ : Op Nat) ∈
      paddedMatmul 0x80000000 := by simp [paddedMatmul]
  obtain ⟨inputs', attrs', hq, -, -, hreads⟩ := hundone.restored _ hop _ _ _ _ rfl (by simp)
  have hsame := hundone.once _ hq _ ((hmem _).mpr (.restored hop (unclaimed_paddedMatmul _))) rfl
  simp only [restoredOp, Op.mk.injEq, Body.contraction.injEq] at hsame
  have hinputs : inputs' = [original 4, original 0] := hsame.2.2.2.1
  subst hinputs
  have hreads := hreads _ (hpromoted ▸ hruns) fun op hmem hcall => by
    rw [claimOp_of_not (by simp)] at hcall
    simp only [paddedMatmul, List.mem_cons, List.not_mem_nil, or_false] at hmem
    rcases hmem with rfl | rfl | rfl | rfl | rfl | rfl <;> cases hcall
  cases hreads with
  | cons hread _ =>
    have helem := hread.elem [0, 0] (.cons (by decide +kernel) (.cons (by decide +kernel) .nil))
    rw [hvalue, hvalue'] at helem
    exact absurd helem (by decide)

end IreeRocket.Plugin.ConvInputs
