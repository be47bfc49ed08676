import IreeRocket.Plugin.InputRuns

/-!
# The function behind both passes

Every value is defined once and before it is used (`Once.promoted`, `Ordered.promoted`), so the function has
runs. A restored operation has the attributes that it had, and what stands for an input has the input's type.
-/

namespace IreeRocket.Plugin.ConvInputs

open Linalg

variable {ι : Type}

/-! ### Pads of inputs -/

theorem static_operands {amounts : List (Amount ι)} (h : amounts.all Amount.isStatic) {κ : Type} (φ : ι → κ) :
    (amounts.map (Amount.map φ)).flatMap Amount.operands = [] := by
  refine List.flatMap_eq_nil_iff.mpr fun amount hamount => ?_
  obtain ⟨original, horiginal, rfl⟩ := List.mem_map.mp hamount
  cases original with
  | static n => rfl
  | dynamic v => exact absurd (List.all_eq_true.mp h _ horiginal) (by simp [Amount.isStatic])

theorem operands_map {κ : Type} (φ : ι → κ) (body : Body ι) : (body.map φ).operands = body.operands.map φ := by
  have hamounts : ∀ amounts : List (Amount ι), (amounts.map (Amount.map φ)).flatMap Amount.operands =
      (amounts.flatMap Amount.operands).map φ := fun amounts => by
    rw [List.flatMap_map, List.map_flatMap]
    exact List.flatMap_congr fun amount _ => by cases amount <;> rfl
  cases body with
  | contraction kind inputs inits attrs => exact List.map_append.symm
  | generic region inputs inits attrs => exact List.map_append.symm
  | pad source low high fill =>
    have hfill : (fill.map φ).operands = fill.operands.map φ := by cases fill <;> rfl
    simp only [Body.map, Body.operands, hfill, List.flatMap_append, hamounts, List.cons_append, List.map_cons,
      List.map_append]
  | collapse source reassociation => rfl
  | call => rfl
  | other name operands => rfl

/-- An order of the values behind both passes. -/
def Role.rank : Role → Nat
  | .truncated => 0
  | .padded => 1
  | .collapsed _ => 2

def rankBehind (rank : ι → Nat) : Extended (Extended ι) → Nat
  | .old (.old v) => 8 * rank v + 7
  | .old (.new owner _ role) => 8 * rank owner + role.rank
  | .new owner _ role => 8 * rank owner.root + 3 + role.rank

variable [DecidableEq ι] {f : Func ι} {depthwise : Bool} {claimed : ι → Bool}

/-- The definitions of an input that is read through a pad. -/
theorem paddedInput_some {value : ι} {input : PaddedInput ι} (h : paddedInput f value = some input) :
    ∃ padValue, bodyOf f padValue = some (.pad input.source input.low input.high input.fill) ∧
      input.type = typeOf f padValue ∧
      match input.collapse with
      | none => padValue = value
      | some (type, reassociation) =>
        bodyOf f value = some (.collapse padValue reassociation) ∧ type = typeOf f value := by
  unfold paddedInput at h
  split at h
  · rename_i src reassociation hcollapse
    split at h
    · rename_i source low high fill hpad
      obtain rfl := Option.some.inj h
      exact ⟨src, hpad, rfl, hcollapse, rfl⟩
    · cases h
  · rename_i source low high fill hpad
    obtain rfl := Option.some.inj h
    exact ⟨value, hpad, rfl, rfl⟩
  · cases h

/-- What is padded is defined before the input. -/
theorem source_rank {rank : ι → Nat} (h : Ordered f rank) {value : ι} {input : PaddedInput ι}
    (hinput : paddedInput f value = some input) : rank input.source < rank value := by
  obtain ⟨padValue, hpad, -, hcollapse⟩ := paddedInput_some hinput
  obtain ⟨op, hop, rfl, hbody⟩ := exists_of_bodyOf hpad
  have hsource : rank input.source < rank op.result := h op hop _ (hbody ▸ List.mem_cons_self)
  split at hcollapse
  · exact hcollapse ▸ hsource
  · obtain ⟨collapse, hmem, rfl, hcollapseBody⟩ := exists_of_bodyOf hcollapse.1
    exact hsource.trans (h collapse hmem _ (hcollapseBody ▸ List.mem_singleton_self _))

/-! ### The operations behind both passes -/

theorem restoredInput_result {owner : Extended ι} {i : Nat} {value : ι} {q : Op (Extended (Extended ι))}
    (h : q ∈ (restoredInput f (.new owner i) value).1) : ∃ role, q.result = .new owner i role := by
  unfold restoredInput at h
  split at h
  · split at h
    · exact ⟨_, congrArg Op.result (List.mem_singleton.mp h)⟩
    · simp only [List.mem_cons, List.not_mem_nil, or_false] at h
      rcases h with rfl | rfl
      · exact ⟨_, rfl⟩
      · exact ⟨_, rfl⟩
  · cases h

theorem once_restoredInput (owner : Extended ι) (i : Nat) (value : ι) :
    Once (restoredInput f (.new owner i) value).1 := by
  unfold restoredInput
  split
  · split
    · simp [Once]
    · simp [Once]
  · simp [Once]

/-- **Behind both passes every value is defined once.** -/
theorem Once.promoted (honce : Once f) {f' : Func (Extended (Extended ι))}
    (hmem : ∀ q, q ∈ f' ↔ Promoted depthwise claimed f q) : Once f' := by
  intro q hq q' hq' hresult
  have hold : ∀ {op op' : Op ι}, op ∈ f → op' ∈ f → (claimOp claimed op).result = op'.result → op = op' :=
    fun hop hop' hsame => honce _ hop _ hop' ((claimOp_result claimed _).symm.trans hsame)
  cases (hmem q).mp hq with
  | @left op hop hnot =>
    cases (hmem q').mp hq' with
    | @left op' hop' =>
      have hsame : (claimOp claimed op).result = (claimOp claimed op').result := by
        simpa [Op.map, original] using hresult
      rw [hold hop hop' (hsame.trans (claimOp_result claimed op'))]
    | @restored op' kind inputs inits attrs hop' h =>
      have hsame : (claimOp claimed op).result = op'.result := by simpa [Op.map, original, restoredOp] using hresult
      obtain rfl := hold hop hop' hsame
      exact absurd h (hnot _ _ _ _)
    | rebuilt hop' h hvalue hq' =>
      obtain ⟨role, hrole⟩ := restoredInput_result hq'
      exact absurd (hresult.trans hrole) (by simp [Op.map, original])
    | created hop' h hvalue hmade =>
      obtain ⟨role, hrole⟩ := demoteInput_result hmade
      exact absurd hresult (by simp [Op.map, original, hrole])
  | @restored op kind inputs inits attrs hop h =>
    cases (hmem q').mp hq' with
    | @left op' hop' hnot =>
      have hsame : (claimOp claimed op').result = op.result := by
        simpa [Op.map, original, restoredOp] using hresult.symm
      obtain rfl := hold hop' hop hsame
      exact absurd h (hnot _ _ _ _)
    | @restored op' kind' inputs' inits' attrs' hop' h' =>
      obtain rfl : op = op' := honce op hop op' hop' (by simpa [original, restoredOp] using hresult)
      obtain ⟨rfl, rfl, rfl, rfl⟩ := h.same h'.body
      rfl
    | rebuilt hop' h' hvalue hq' =>
      obtain ⟨role, hrole⟩ := restoredInput_result hq'
      exact absurd (hresult.trans hrole) (by simp [restoredOp, original])
    | created hop' h' hvalue hmade =>
      obtain ⟨role, hrole⟩ := demoteInput_result hmade
      exact absurd hresult (by simp [Op.map, restoredOp, original, hrole])
  | @rebuilt op kind inputs inits attrs hop h i value hvalue q hq =>
    obtain ⟨role, hrole⟩ := restoredInput_result hq
    cases (hmem q').mp hq' with
    | left hop' => exact absurd (hrole.symm.trans hresult) (by simp [Op.map, original])
    | restored hop' h' => exact absurd (hrole.symm.trans hresult) (by simp [restoredOp, original])
    | @rebuilt op' kind' inputs' inits' attrs' hop' h' i' value' hvalue' q' hq' =>
      obtain ⟨role', hrole'⟩ := restoredInput_result hq'
      have hsame := hrole.symm.trans (hresult.trans hrole')
      simp only [Extended.new.injEq, Extended.old.injEq] at hsame
      obtain ⟨hsame, rfl, -⟩ := hsame
      obtain rfl := honce op hop op' hop' hsame
      obtain ⟨rfl, rfl, rfl, rfl⟩ := h.same h'.body
      obtain rfl : value = value' := Option.some.inj (hvalue.symm.trans hvalue')
      exact once_restoredInput _ _ _ q hq q' hq' hresult
    | created hop' h' hvalue' hq' => exact absurd (hrole.symm.trans hresult) (by simp [Op.map])
  | @created op kind inputs inits attrs hop h i value hvalue q hmade =>
    obtain ⟨role, hrole⟩ := demoteInput_result hmade
    cases (hmem q').mp hq' with
    | left hop' => exact absurd hresult (by simp [Op.map, original, hrole])
    | restored hop' h' => exact absurd hresult (by simp [Op.map, restoredOp, original, hrole])
    | rebuilt hop' h' hvalue' hq' =>
      obtain ⟨role', hrole'⟩ := restoredInput_result hq'
      exact absurd (hresult.trans hrole') (by simp [Op.map])
    | @created op' kind' inputs' inits' attrs' hop' h' i' value' hvalue' q' hmade' =>
      obtain ⟨role', hrole'⟩ := demoteInput_result hmade'
      have hresult : q.result = q'.result := by simpa [Op.map] using hresult
      have hsame := hrole.symm.trans (hresult.trans hrole')
      simp only [Extended.new.injEq] at hsame
      obtain ⟨hsame, rfl, -⟩ := hsame
      obtain rfl := honce op hop op' hop' hsame
      obtain ⟨rfl, rfl, rfl, rfl⟩ := h.same h'.body
      obtain rfl : value = value' := Option.some.inj (hvalue.symm.trans hvalue')
      rw [once_demoteInput _ _ _ q hmade q' hmade' hresult]

/-- What stands for an input is defined before the operation. -/
theorem restoredInput_rank {rank : ι → Nat} {owner value : ι} (hvalue : rank value < rank owner) (i : Nat) :
    rankBehind rank (restoredInput f (.new (.old owner) i) value).2 < 8 * rank owner + 7 := by
  unfold restoredInput
  split
  · split <;> simp only [rankBehind, Extended.root, Role.rank] <;> omega
  · simp only [original, rankBehind]
    omega

theorem restoredInput_ordered {rank : ι → Nat} (h : Ordered f rank) {owner value : ι}
    (hvalue : rank value < rank owner) (i : Nat) :
    Ordered (restoredInput f (.new (.old owner) i) value).1 (rankBehind rank) := by
  intro q hq w hw
  unfold restoredInput at hq
  split at hq
  · rename_i input hthrough
    obtain ⟨hinput, hlow, hhigh, -, -⟩ := demotedThrough_some hthrough
    have hsource := source_rank h hinput
    have hpad : ∀ w ∈ Body.operands (.pad (original input.source) (input.low.map (Amount.map original))
        (input.high.map (Amount.map original)) (.constant (.f32 0))), w = original input.source := fun w hw => by
      simpa [Body.operands, Fill.operands, List.flatMap_append, static_operands hlow, static_operands hhigh] using hw
    split at hq
    · obtain rfl := List.mem_singleton.mp hq
      obtain rfl := hpad w hw
      simp only [original, rankBehind, Extended.root, Role.rank]
      omega
    · simp only [List.mem_cons, List.not_mem_nil, or_false] at hq
      rcases hq with rfl | rfl
      · obtain rfl := hpad w hw
        simp only [original, rankBehind, Extended.root, Role.rank]
        omega
      · obtain rfl := List.mem_singleton.mp hw
        simp only [rankBehind, Extended.root, Role.rank]
        omega
  · cases hq

theorem demoteInput_ordered {rank : ι → Nat} (h : Ordered f rank) {owner value : ι}
    (hvalue : rank value < rank owner) (i : Nat) {q : Op (Extended ι)}
    (hq : q ∈ (demoteInput f (.new owner i) value).1) :
    ∀ w ∈ (q.map Extended.old).body.operands, rankBehind rank w < rankBehind rank (q.map Extended.old).result := by
  intro w hw
  rw [Op.map, operands_map] at hw
  obtain ⟨w, hmem, rfl⟩ := List.mem_map.mp hw
  unfold demoteInput at hq
  split at hq
  · rename_i input hthrough
    obtain ⟨hinput, hlow, hhigh, -, -⟩ := demotedThrough_some hthrough
    have hsource := source_rank h hinput
    have hpad : ∀ w ∈ Body.operands (.pad (Extended.new owner i .truncated) (input.low.map (Amount.map .old))
        (input.high.map (Amount.map .old)) (.constant (.f16 0))), w = .new owner i .truncated := fun w hw => by
      simpa [Body.operands, Fill.operands, List.flatMap_append, static_operands hlow, static_operands hhigh] using hw
    split at hq
    · simp only [List.mem_cons, List.not_mem_nil, or_false] at hq
      rcases hq with rfl | rfl
      · obtain rfl : w = .old input.source := by simpa [truncateToF16, Body.operands] using hmem
        simp only [Op.map, truncateToF16, rankBehind, Role.rank]
        omega
      · obtain rfl := hpad w hmem
        simp only [Op.map, rankBehind, Role.rank]
        omega
    · simp only [List.mem_cons, List.not_mem_nil, or_false] at hq
      rcases hq with rfl | rfl | rfl
      · obtain rfl : w = .old input.source := by simpa [truncateToF16, Body.operands] using hmem
        simp only [Op.map, truncateToF16, rankBehind, Role.rank]
        omega
      · obtain rfl := hpad w hmem
        simp only [Op.map, rankBehind, Role.rank]
        omega
      · obtain rfl := List.mem_singleton.mp hmem
        simp only [Op.map, rankBehind, Role.rank]
        omega
  · obtain rfl := List.mem_singleton.mp hq
    obtain rfl : w = .old value := by simpa [truncateToF16, Body.operands] using hmem
    simp only [Op.map, truncateToF16, rankBehind, Role.rank]
    omega

/-- **Behind both passes values are defined before they are used.** -/
theorem Ordered.promoted {rank : ι → Nat} (h : Ordered f rank) {f' : Func (Extended (Extended ι))}
    (hmem : ∀ q, q ∈ f' ↔ Promoted depthwise claimed f q) : Ordered f' (rankBehind rank) := by
  intro q hq w hw
  cases (hmem q).mp hq with
  | @left op hop hnot =>
    have hresult : ((claimOp claimed op).map original).result = original op.result :=
      congrArg original (claimOp_result claimed op)
    rw [Op.map, operands_map] at hw
    obtain ⟨v, hv, rfl⟩ := List.mem_map.mp hw
    have hv : v ∈ op.body.operands := by
      unfold claimOp at hv
      split at hv
      · exact hv
      · exact hv
      · split_ifs at hv
        · cases hv
        · exact hv
    have hrank := h op hop v hv
    rw [hresult]
    simp only [original, rankBehind]
    omega
  | @restored op kind inputs inits attrs hop hunclaimed =>
    have hoperand : ∀ v ∈ inputs ++ inits, rank v < rank op.result := fun v hv =>
      h op hop v (by rwa [hunclaimed.body])
    show rankBehind rank w < 8 * rank op.result + 7
    rcases List.mem_append.mp hw with hw | hw
    · obtain ⟨restored, hrestored, rfl⟩ := List.mem_map.mp hw
      obtain ⟨i, hi, rfl⟩ := List.mem_mapIdx.mp hrestored
      exact restoredInput_rank (hoperand _ (List.mem_append_left _ (List.getElem_mem hi))) i
    · obtain ⟨v, hv, rfl⟩ := List.mem_map.mp hw
      have hrank := hoperand v (List.mem_append_right _ hv)
      simp only [original, rankBehind]
      omega
  | @rebuilt op kind inputs inits attrs hop hunclaimed i value hvalue q hmade =>
    have hrank := h op hop value (by
      rw [hunclaimed.body]
      exact List.mem_append_left _ (List.mem_of_getElem? hvalue))
    exact restoredInput_ordered h hrank i q hmade w hw
  | @created op kind inputs inits attrs hop hdemoted i value hvalue q hmade =>
    have hrank := h op hop value (by
      rw [hdemoted.body]
      exact List.mem_append_left _ (List.mem_of_getElem? hvalue))
    exact demoteInput_ordered h hrank i hmade w hw

/-! ### Attributes and types -/

theorem lookup_filter (p : String → Bool) (attrs : Attrs) (name : String) :
    (attrs.filter fun attr => p attr.1).lookup name = if p name then attrs.lookup name else none := by
  induction attrs with
  | nil => simp
  | cons attr attrs ih =>
    obtain ⟨key, value⟩ := attr
    by_cases hkey : name = key
    · subst hkey
      by_cases hp : p name <;> simp [hp, ih]
    · have hne : (name == key) = false := by simpa using hkey
      by_cases hp : p key <;> simp [List.lookup_cons, hp, hne, ih]

theorem lookup_filterMap (names : List String) (attrs : Attrs) (name : String) :
    (names.filterMap fun key => (attrs.lookup key).map fun attr => (key, attr)).lookup name =
      if name ∈ names then attrs.lookup name else none := by
  induction names with
  | nil => simp
  | cons key names ih =>
    cases hkey : attrs.lookup key with
    | none =>
      rw [List.filterMap_cons, hkey, Option.map_none, ih]
      by_cases hname : name = key
      · subst hname
        simp [hkey]
      · simp [hname]
    | some attr =>
      rw [List.filterMap_cons, hkey, Option.map_some, List.lookup_cons, ih]
      by_cases hname : name = key
      · subst hname
        simp [hkey]
      · have hne : (name == key) = false := by simpa using hname
        simp [hname, hne]

/-- The attributes that a rebuilt operation has: all but the cache of the indexing maps and what the builder
sets itself. -/
def isCarried (kind : Kind) (name : String) : Prop :=
  name ∈ kShapeDefiningAttrNames ∨ (name ∉ attributeNames kind ∧ name ≠ kMemoizedIndexingMapsAttrName)

theorem lookup_rebuiltAttrs {kind : Kind} {name : String} (h : isCarried kind name) (attrs : Attrs) :
    (rebuiltAttrs kind attrs).lookup name = attrs.lookup name := by
  have hpruned : (getPrunedAttributeList kind attrs).lookup name =
      if name ∉ attributeNames kind ∧ name ≠ kMemoizedIndexingMapsAttrName then attrs.lookup name else none := by
    have hfilter := lookup_filter
      (fun key => decide (key ∉ attributeNames kind ∧ key ≠ kMemoizedIndexingMapsAttrName)) attrs name
    rw [getPrunedAttributeList, hfilter]
    simp only [decide_eq_true_eq]
  rw [rebuiltAttrs, List.lookup_append, hpruned, lookup_filterMap]
  by_cases hkept : name ∉ attributeNames kind ∧ name ≠ kMemoizedIndexingMapsAttrName
  · rw [if_pos hkept]
    cases attrs.lookup name with
    | none => simp
    | some attr => rfl
  · rw [if_neg hkept, if_pos (h.resolve_right hkept)]
    rfl

/-- Both passes keep what they carry, and the tag is gone. -/
theorem lookup_restored {kind : Kind} {attrs : Attrs} (huntagged : ¬ hasAttr attrs kDemotedAttrName) {name : String}
    (h : isCarried kind name) :
    (removeAttr (rebuiltAttrs kind (setAttr (rebuiltAttrs kind attrs) kDemotedAttrName "unit"))
      kDemotedAttrName).lookup name = attrs.lookup name := by
  have hremove : ∀ attrs : Attrs, (removeAttr attrs kDemotedAttrName).lookup name =
      if name ≠ kDemotedAttrName then attrs.lookup name else none := fun attrs => by
    rw [removeAttr, lookup_filter fun key => decide (key ≠ kDemotedAttrName)]
    simp only [decide_eq_true_eq]
  rw [hremove]
  by_cases hname : name = kDemotedAttrName
  · rw [if_neg (not_not.mpr hname), hname]
    exact (Option.not_isSome_iff_eq_none.mp huntagged).symm
  · have hne : (name == kDemotedAttrName) = false := by simpa using hname
    rw [if_pos hname, lookup_rebuiltAttrs h, setAttr, List.lookup_cons, hne, hremove, if_pos hname,
      lookup_rebuiltAttrs h]

theorem shapeDefining_restored {kind : Kind} {attrs : Attrs} (huntagged : ¬ hasAttr attrs kDemotedAttrName) :
    shapeDefining (removeAttr (rebuiltAttrs kind (setAttr (rebuiltAttrs kind attrs) kDemotedAttrName "unit"))
      kDemotedAttrName) = shapeDefining attrs :=
  List.map_congr_left fun _ hname => lookup_restored huntagged (.inl hname)

theorem clone_self {type : ValueType} (h : type.isRankedF32) : type.clone .f32 = type := by
  cases type with
  | ranked shape element =>
    cases element with
    | f32 => rfl
    | f16 => cases h
    | other name => cases h
  | other => cases h

/-! ### Well-formed functions -/

/-- A function as the passes find it: every value is defined once, and before it is used, and no operation
carries the project's tag. -/
structure WellFormed (f : Func ι) : Prop where
  once : Once f
  untagged : Untagged f
  defined : ∀ op ∈ f, ∀ v ∈ op.body.operands, ∃ op' ∈ f, op'.result = v
  ordered : ∃ rank : ι → Nat, Ordered f rank

section Behind

variable {f' : Func (Extended (Extended ι))} (hmem : ∀ q, q ∈ f' ↔ Promoted depthwise claimed f q)

include hmem

/-- The values of the function keep their types behind both passes. -/
theorem typeOf_original (honce : Once f) (honce' : Once f') {op : Op ι} (hop : op ∈ f) :
    typeOf f' (original op.result) = typeOf f op.result := by
  rw [honce.typeOf hop]
  by_cases h : ∃ kind inputs inits attrs, Unclaimed depthwise claimed f op kind inputs inits attrs
  · obtain ⟨kind, inputs, inits, attrs, h⟩ := h
    exact honce'.typeOf ((hmem _).mpr (.restored hop h))
  · have hnot : ∀ kind inputs inits attrs, ¬ Unclaimed depthwise claimed f op kind inputs inits attrs :=
      fun kind inputs inits attrs hunclaimed => h ⟨kind, inputs, inits, attrs, hunclaimed⟩
    have htype := honce'.typeOf ((hmem _).mpr (.left hop hnot))
    simp only [Op.map, claimOp_result, claimOp_type] at htype
    exact htype

/-- **What stands for an input has its type.** -/
theorem typeOf_restoredInput (honce : Once f) (honce' : Once f') {op : Op ι} {kind : Kind} {inputs inits : List ι}
    {attrs : Attrs} (hop : op ∈ f) (h : Unclaimed depthwise claimed f op kind inputs inits attrs) {i : Nat}
    {value : ι} (hvalue : inputs[i]? = some value) (hdefined : ∃ op' ∈ f, op'.result = value) :
    typeOf f' (restoredInput f (.new (.old op.result) i) value).2 = typeOf f value := by
  have hranked := h.ranked value (List.mem_append_left _ (List.mem_of_getElem? hvalue))
  have hrebuilt : ∀ q ∈ (restoredInput f (.new (.old op.result) i) value).1, q ∈ f' := fun q hq =>
    (hmem q).mpr (.rebuilt hop h hvalue hq)
  unfold restoredInput at hrebuilt ⊢
  split at hrebuilt
  · rename_i input hthrough
    obtain ⟨padValue, -, htype, hcollapse⟩ := paddedInput_some (demotedThrough_some hthrough).1
    cases hform : input.collapse with
    | none =>
      rw [hform] at hcollapse hrebuilt
      have hpad := honce'.typeOf (hrebuilt _ List.mem_cons_self)
      rw [htype, hcollapse, clone_self hranked] at hpad
      exact hpad
    | some collapse =>
      rw [hform] at hcollapse hrebuilt
      have hcollapsed := honce'.typeOf (hrebuilt _ (List.mem_cons_of_mem _ List.mem_cons_self))
      rw [hcollapse.2, clone_self hranked] at hcollapsed
      exact hcollapsed
  · obtain ⟨op', hop', rfl⟩ := hdefined
    exact typeOf_original hmem honce honce' hop'

end Behind

end IreeRocket.Plugin.ConvInputs
