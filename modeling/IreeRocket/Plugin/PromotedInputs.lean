import IreeRocket.Core.Error
import IreeRocket.Plugin.ConvInputs

/-!
# What promotion makes of demoted inputs

The definitions that promotion looks up are those that demotion created, for every value is defined once
(`Once.demote`). So it finds each input of a demoted operation in one of the three forms, and rebuilds it over
what was truncated (`promotedF32Source_eq`); no operation is left with some inputs only.
-/

namespace IreeRocket.Plugin.ConvInputs

/-! ### Definitions -/

section Definitions

variable {ι : Type} {f : Func ι}

/-- Every value is defined once. -/
def Once (f : Func ι) : Prop := ∀ op ∈ f, ∀ op' ∈ f, op.result = op'.result → op = op'

variable [DecidableEq ι]

theorem Once.find (h : Once f) {op : Op ι} (hop : op ∈ f) :
    (f.find? fun op' => op'.result = op.result) = some op := by
  cases hfind : f.find? fun op' => op'.result = op.result with
  | none => exact absurd (by simp) (List.find?_eq_none.mp hfind op hop)
  | some op' =>
    have hresult : op'.result = op.result := by simpa using List.find?_some hfind
    rw [h op' (List.mem_of_find?_eq_some hfind) op hop hresult]

theorem Once.bodyOf (h : Once f) {op : Op ι} (hop : op ∈ f) : bodyOf f op.result = some op.body := by
  rw [ConvInputs.bodyOf, h.find hop]
  rfl

theorem Once.typeOf (h : Once f) {op : Op ι} (hop : op ∈ f) : typeOf f op.result = op.type := by
  rw [ConvInputs.typeOf, h.find hop]
  rfl

theorem exists_of_bodyOf {v : ι} {body : Body ι} (h : bodyOf f v = some body) :
    ∃ op ∈ f, op.result = v ∧ op.body = body := by
  obtain ⟨op, hfind, hbody⟩ := Option.map_eq_some_iff.mp h
  exact ⟨op, List.mem_of_find?_eq_some hfind, by simpa using List.find?_some hfind, hbody⟩

theorem typeOf_of_undefined {v : ι} (h : ∀ op ∈ f, op.result ≠ v) : typeOf f v = .other := by
  have hfind : (f.find? fun op => op.result = v) = none :=
    List.find?_eq_none.mpr fun op hop => by simpa using h op hop
  rw [typeOf, hfind]
  rfl

end Definitions

variable {ι : Type}

/-- The operation that a created value belongs to, or the value itself. -/
def Extended.root : Extended ι → ι
  | .old v => v
  | .new owner _ _ => owner

theorem clone_clone (type : ValueType) (element element' : ElementType) :
    (type.clone element).clone element' = type.clone element' := by
  cases type <;> rfl

theorem claimOp_result (claimed : ι → Bool) (op : Op ι) : (claimOp claimed op).result = op.result := by
  unfold claimOp
  split
  · rfl
  · rfl
  · split_ifs <;> rfl

theorem claimOp_type (claimed : ι → Bool) (op : Op ι) : (claimOp claimed op).type = op.type := by
  unfold claimOp
  split
  · rfl
  · rfl
  · split_ifs <;> rfl

theorem claimOp_of_not {claimed : ι → Bool} {op : Op ι} (h : ¬ claimed op.result) : claimOp claimed op = op := by
  unfold claimOp
  split
  · rfl
  · rfl
  · exact if_neg h

/-- A contraction that is claimed is replaced. -/
theorem claimOp_contraction {claimed : ι → Bool} {op : Op ι} {kind : Kind} {inputs inits : List ι} {attrs : Attrs}
    (h : claimed op.result) (hbody : op.body = .contraction kind inputs inits attrs) :
    claimOp claimed op = ⟨op.result, op.type, .call⟩ := by
  unfold claimOp
  rw [hbody]
  exact if_pos h

theorem Once.claim {f : Func ι} (h : Once f) (claimed : ι → Bool) : Once (claim claimed f) := by
  intro q hq q' hq' hresult
  obtain ⟨op, hop, rfl⟩ := List.mem_map.mp hq
  obtain ⟨op', hop', rfl⟩ := List.mem_map.mp hq'
  rw [claimOp_result, claimOp_result] at hresult
  rw [h op hop op' hop' hresult]

/-- A value of the function behind both passes. -/
def original (v : ι) : Extended (Extended ι) := .old (.old v)

theorem static_map {κ : Type} (φ : ι → κ) (amounts : List (Amount ι)) :
    (amounts.map (Amount.map φ)).all Amount.isStatic = amounts.all Amount.isStatic := by
  rw [List.all_map]
  refine congrArg (List.all amounts) (funext fun amount => ?_)
  cases amount <;> rfl

theorem amounts_map_map (amounts : List (Amount ι)) :
    (amounts.map (Amount.map Extended.old)).map (Amount.map Extended.old) = amounts.map (Amount.map original) := by
  rw [List.map_map]
  refine List.map_congr_left fun amount _ => ?_
  cases amount <;> rfl

theorem Body.map_map (body : Body ι) : (body.map Extended.old).map Extended.old = body.map original := by
  have hlist : ∀ values : List ι, (values.map Extended.old).map Extended.old = values.map original := fun values =>
    List.map_map
  cases body with
  | contraction kind inputs inits attrs => simp only [Body.map, hlist]
  | generic region inputs inits attrs => simp only [Body.map, hlist]
  | pad source low high fill =>
    have hfill : (fill.map Extended.old).map Extended.old = fill.map original := by
      cases fill with
      | constant value => rfl
      | region name captures => simp only [Fill.map, hlist]
    simp only [Body.map, amounts_map_map, hfill]
    rfl
  | collapse source reassociation => rfl
  | call => rfl
  | other name operands => simp only [Body.map, hlist]

theorem Op.map_map (op : Op ι) : (op.map Extended.old).map Extended.old = op.map original :=
  congrArg (Op.mk _ _) op.body.map_map

/-- The claims are of operations of the function, not of what was created. -/
def claimedOf (claimed : ι → Bool) : Extended ι → Bool
  | .old v => claimed v
  | .new _ _ _ => false

theorem claimOp_map (claimed : ι → Bool) (op : Op ι) :
    claimOp (claimedOf claimed) (op.map .old) = (claimOp claimed op).map .old := by
  obtain ⟨result, type, body⟩ := op
  cases body with
  | pad source low high fill => rfl
  | collapse source reassociation => rfl
  | _ => by_cases h : claimed result <;> simp [claimOp, Op.map, Body.map, claimedOf, h]

/-- No operation of the model carries the tag. -/
def Untagged (f : Func ι) : Prop :=
  ∀ op ∈ f, ∀ kind inputs inits attrs, op.body = .contraction kind inputs inits attrs →
    ¬ hasAttr attrs kDemotedAttrName

/-- What was claimed or is no contraction of the demotion is no tagged contraction. -/
theorem claimed_untagged {f : Func ι} {claimed : ι → Bool} {op : Op ι} (huntagged : Untagged f) (hop : op ∈ f)
    {kind : Kind} {inputs inits : List (Extended ι)} {attrs : Attrs}
    (h : ((claimOp claimed op).map Extended.old).body = .contraction kind inputs inits attrs) :
    ¬ hasAttr attrs kDemotedAttrName := by
  have hsame : ((claimOp claimed op).map Extended.old).body = (op.map Extended.old).body ∨
      ((claimOp claimed op).map Extended.old).body = .call := by
    unfold claimOp
    split
    · exact .inl rfl
    · exact .inl rfl
    · split_ifs
      · exact .inr rfl
      · exact .inl rfl
  rcases hsame with hsame | hsame
  · rw [hsame] at h
    cases hbody : op.body with
    | contraction kind' inputs' inits' attrs' =>
      simp only [Op.map, Body.map, hbody, Body.contraction.injEq] at h
      exact h.2.2.2 ▸ huntagged op hop _ _ _ _ hbody
    | _ => simp [Op.map, Body.map, hbody] at h
  · exact absurd (hsame.symm.trans h) (by simp)

variable [DecidableEq ι]

/-! ### Demotion -/

/-- An operation whose inputs are demoted. -/
structure Demoted (depthwise : Bool) (f : Func ι) (op : Op ι) (kind : Kind) (inputs inits : List ι)
    (attrs : Attrs) : Prop where
  body : op.body = .contraction kind inputs inits attrs
  enabled : kind.isDemoted depthwise
  untagged : ¬ hasAttr attrs kDemotedAttrName
  ranked : ∀ operand ∈ inputs ++ inits, (typeOf f operand).isRankedF32

/-- Its operands and attributes are those of its body. -/
theorem Demoted.same {depthwise : Bool} {f : Func ι} {op : Op ι} {kind kind' : Kind}
    {inputs inits inputs' inits' : List ι} {attrs attrs' : Attrs} (h : Demoted depthwise f op kind inputs inits attrs)
    (hbody : op.body = .contraction kind' inputs' inits' attrs') :
    kind = kind' ∧ inputs = inputs' ∧ inits = inits' ∧ attrs = attrs' :=
  Body.contraction.inj (h.body.symm.trans hbody)

/-- The operation that takes its place. -/
def demotedOp (f : Func ι) (op : Op ι) (kind : Kind) (inputs inits : List ι) (attrs : Attrs) : Op (Extended ι) :=
  ⟨.old op.result, op.type, .contraction kind
    ((inputs.mapIdx fun i value => demoteInput f (.new op.result i) value).map Prod.snd) (inits.map .old)
    (setAttr (rebuiltAttrs kind attrs) kDemotedAttrName "unit")⟩

variable {depthwise : Bool} {f : Func ι} {op : Op ι} {kind : Kind} {inputs inits : List ι} {attrs : Attrs}

theorem demoteOp_of_demoted (h : Demoted depthwise f op kind inputs inits attrs) :
    demoteOp depthwise f op =
      (inputs.mapIdx fun i value => demoteInput f (.new op.result i) value).flatMap Prod.fst ++
        [demotedOp f op kind inputs inits attrs] := by
  unfold demoteOp
  rw [h.body]
  dsimp only
  rw [if_pos ⟨h.enabled, h.untagged, List.all_eq_true.mpr h.ranked⟩]
  rfl

theorem demoteOp_of_not (h : ∀ kind inputs inits attrs, ¬ Demoted depthwise f op kind inputs inits attrs) :
    demoteOp depthwise f op = [op.map .old] := by
  unfold demoteOp
  split
  · rename_i kind inputs inits attrs hbody
    refine if_neg fun hguard => h kind inputs inits attrs ⟨hbody, hguard.1, hguard.2.1, ?_⟩
    exact List.all_eq_true.mp hguard.2.2
  · rfl

/-- An operation that is left, one that is rebuilt, or one that is created for an input. -/
theorem mem_demoteOp {q : Op (Extended ι)} : q ∈ demoteOp depthwise f op ↔
    ((∀ kind inputs inits attrs, ¬ Demoted depthwise f op kind inputs inits attrs) ∧ q = op.map .old) ∨
      ∃ kind inputs inits attrs, Demoted depthwise f op kind inputs inits attrs ∧
        (q = demotedOp f op kind inputs inits attrs ∨
          ∃ i value, inputs[i]? = some value ∧ q ∈ (demoteInput f (.new op.result i) value).1) := by
  by_cases h : ∃ kind inputs inits attrs, Demoted depthwise f op kind inputs inits attrs
  · obtain ⟨kind, inputs, inits, attrs, h⟩ := h
    rw [demoteOp_of_demoted h]
    simp only [List.mem_append, List.mem_flatMap, List.mem_mapIdx, List.mem_singleton]
    constructor
    · rintro (⟨_, ⟨i, hi, rfl⟩, hq⟩ | rfl)
      · exact .inr ⟨kind, inputs, inits, attrs, h, .inr ⟨i, inputs[i], List.getElem?_eq_getElem hi, hq⟩⟩
      · exact .inr ⟨kind, inputs, inits, attrs, h, .inl rfl⟩
    · rintro (⟨hnot, -⟩ | ⟨kind', inputs', inits', attrs', h', hq⟩)
      · exact absurd h (hnot _ _ _ _)
      obtain ⟨rfl, rfl, rfl, rfl⟩ := h.same h'.body
      rcases hq with rfl | ⟨i, value, hvalue, hq⟩
      · exact .inr rfl
      · obtain ⟨hi, rfl⟩ := List.getElem?_eq_some_iff.mp hvalue
        exact .inl ⟨_, ⟨i, hi, rfl⟩, hq⟩
  · have hnot : ∀ kind inputs inits attrs, ¬ Demoted depthwise f op kind inputs inits attrs :=
      fun kind inputs inits attrs hdemoted => h ⟨kind, inputs, inits, attrs, hdemoted⟩
    rw [demoteOp_of_not hnot, List.mem_singleton]
    exact ⟨fun hq => .inl ⟨hnot, hq⟩, fun hq => hq.elim And.right fun h' => absurd (by
      obtain ⟨kind, inputs, inits, attrs, hdemoted, -⟩ := h'
      exact ⟨kind, inputs, inits, attrs, hdemoted⟩) h⟩

theorem demoteInput_result {owner : ι} {i : Nat} {value : ι} {q : Op (Extended ι)}
    (h : q ∈ (demoteInput f (.new owner i) value).1) : ∃ role, q.result = .new owner i role := by
  unfold demoteInput at h
  split at h
  · split at h
    · simp only [List.mem_cons, List.not_mem_nil, or_false] at h
      rcases h with rfl | rfl
      · exact ⟨_, rfl⟩
      · exact ⟨_, rfl⟩
    · simp only [List.mem_cons, List.not_mem_nil, or_false] at h
      rcases h with rfl | rfl | rfl
      · exact ⟨_, rfl⟩
      · exact ⟨_, rfl⟩
      · exact ⟨_, rfl⟩
  · simp only [List.mem_singleton] at h
    exact ⟨_, congrArg Op.result h⟩

/-- What is created for one input has a role each. -/
theorem once_demoteInput (owner : ι) (i : Nat) (value : ι) : Once (demoteInput f (.new owner i) value).1 := by
  unfold demoteInput
  split
  · split
    · simp [Once, truncateToF16]
    · simp [Once, truncateToF16]
  · simp [Once]

theorem root_of_mem_demoteOp {q : Op (Extended ι)} (h : q ∈ demoteOp depthwise f op) : q.result.root = op.result := by
  rcases mem_demoteOp.mp h with ⟨-, rfl⟩ | ⟨kind, inputs, inits, attrs, -, rfl | ⟨i, value, -, hq⟩⟩
  · rfl
  · rfl
  · obtain ⟨role, hrole⟩ := demoteInput_result hq
    rw [hrole]
    rfl

/-- **Demotion defines every value once.** -/
theorem Once.demote (h : Once f) : Once (demote depthwise f) := by
  intro q hq q' hq' hresult
  obtain ⟨op, hop, hq⟩ := List.mem_flatMap.mp hq
  obtain ⟨op', hop', hq'⟩ := List.mem_flatMap.mp hq'
  obtain rfl : op = op' := h op hop op' hop'
    ((root_of_mem_demoteOp hq).symm.trans ((congrArg Extended.root hresult).trans (root_of_mem_demoteOp hq')))
  rcases mem_demoteOp.mp hq with ⟨hnot, rfl⟩ | ⟨kind, inputs, inits, attrs, hdemoted, hq⟩
  · rcases mem_demoteOp.mp hq' with ⟨-, rfl⟩ | ⟨kind, inputs, inits, attrs, hdemoted, -⟩
    · rfl
    · exact absurd hdemoted (hnot _ _ _ _)
  rcases mem_demoteOp.mp hq' with ⟨hnot, -⟩ | ⟨kind', inputs', inits', attrs', hdemoted', hq'⟩
  · exact absurd hdemoted (hnot _ _ _ _)
  obtain ⟨rfl, rfl, rfl, rfl⟩ := hdemoted.same hdemoted'.body
  rcases hq with rfl | ⟨i, value, hvalue, hq⟩
  · rcases hq' with rfl | ⟨i', value', -, hq'⟩
    · rfl
    · obtain ⟨role, hrole⟩ := demoteInput_result hq'
      exact absurd (hresult.trans hrole) (by simp [demotedOp])
  · obtain ⟨role, hrole⟩ := demoteInput_result hq
    rcases hq' with rfl | ⟨i', value', hvalue', hq'⟩
    · exact absurd (hrole.symm.trans hresult) (by simp [demotedOp])
    · obtain ⟨role', hrole'⟩ := demoteInput_result hq'
      have hindex := hrole.symm.trans (hresult.trans hrole')
      simp only [Extended.new.injEq, true_and] at hindex
      obtain ⟨rfl, rfl⟩ := hindex
      obtain rfl : value = value' := Option.some.inj (hvalue.symm.trans hvalue')
      exact once_demoteInput _ _ _ q hq q' hq' hresult

/-! ### The match loop -/

/-- The function between the passes. -/
def between (depthwise : Bool) (claimed : ι → Bool) (f : Func ι) : Func (Extended ι) :=
  claim (claimedOf claimed) (demote depthwise f)

variable {claimed : ι → Bool}

theorem mem_between {q : Op (Extended ι)} (hq : q ∈ demote depthwise f) (h : ¬ claimedOf claimed q.result) :
    q ∈ between depthwise claimed f := List.mem_map.mpr ⟨q, hq, claimOp_of_not h⟩

theorem Once.between (h : Once f) : Once (between depthwise claimed f) := h.demote.claim _

/-- Every operation stands in its place, with its type. -/
theorem exists_demoted (depthwise : Bool) {op : Op ι} (hop : op ∈ f) :
    ∃ q ∈ demote depthwise f, q.result = .old op.result ∧ q.type = op.type := by
  by_cases h : ∃ kind inputs inits attrs, Demoted depthwise f op kind inputs inits attrs
  · obtain ⟨kind, inputs, inits, attrs, h⟩ := h
    exact ⟨_, List.mem_flatMap.mpr ⟨op, hop, mem_demoteOp.mpr (.inr ⟨kind, inputs, inits, attrs, h, .inl rfl⟩)⟩,
      rfl, rfl⟩
  · have hnot : ∀ kind inputs inits attrs, ¬ Demoted depthwise f op kind inputs inits attrs :=
      fun kind inputs inits attrs hdemoted => h ⟨kind, inputs, inits, attrs, hdemoted⟩
    exact ⟨_, List.mem_flatMap.mpr ⟨op, hop, mem_demoteOp.mpr (.inl ⟨hnot, rfl⟩)⟩, rfl, rfl⟩

/-- The values of the function keep their types. -/
theorem typeOf_between (h : Once f) (v : ι) : typeOf (between depthwise claimed f) (.old v) = typeOf f v := by
  by_cases hv : ∃ op ∈ f, op.result = v
  · obtain ⟨op, hop, rfl⟩ := hv
    obtain ⟨q, hq, hresult, htype⟩ := exists_demoted depthwise hop
    have hmem : claimOp (claimedOf claimed) q ∈ between depthwise claimed f := List.mem_map_of_mem hq
    have honce' : Once (between depthwise claimed f) := h.between
    have hq' := honce'.typeOf hmem
    rw [claimOp_result, claimOp_type, hresult, htype] at hq'
    rw [hq', h.typeOf hop]
  · have hundefined : ∀ op ∈ f, op.result ≠ v := fun op hop hresult => hv ⟨op, hop, hresult⟩
    rw [typeOf_of_undefined hundefined]
    refine typeOf_of_undefined fun q hq hresult => ?_
    obtain ⟨q, hmem, rfl⟩ := List.mem_map.mp hq
    obtain ⟨op, hop, hmem⟩ := List.mem_flatMap.mp hmem
    rw [claimOp_result] at hresult
    have hroot := root_of_mem_demoteOp hmem
    rw [hresult] at hroot
    exact hundefined op hop hroot.symm

/-! ### The inputs of a demoted operation -/

/-- What promotion creates for an input, and the value that takes its place: the input itself, or its pad and
its collapse over the same source. -/
def restoredInput (f : Func ι) (fresh : Role → Extended (Extended ι)) (value : ι) :
    List (Op (Extended (Extended ι))) × Extended (Extended ι) :=
  match demotedThrough f value with
  | some input =>
    let newPad := ⟨fresh .padded, input.type.clone .f32, .pad (original input.source)
      (input.low.map (Amount.map original)) (input.high.map (Amount.map original)) (.constant (.f32 0))⟩
    match input.collapse with
    | none => ([newPad], fresh .padded)
    | some (type, reassociation) =>
      ([newPad, ⟨fresh (.collapsed 0), type.clone .f32, .collapse (fresh .padded) reassociation⟩],
        fresh (.collapsed 0))
  | none => ([], original value)

/-- The pad that a truncation goes below is static and over f32. -/
theorem demotedThrough_some {value : ι} {input : PaddedInput ι} (h : demotedThrough f value = some input) :
    paddedInput f value = some input ∧ input.low.all Amount.isStatic ∧ input.high.all Amount.isStatic ∧
      (∃ fill, input.fill = .constant fill ∧ fill.isZero) ∧ (typeOf f input.source).isRankedF32 := by
  obtain ⟨hinput, hguard⟩ := Option.filter_eq_some_iff.mp h
  simp only [isStaticZeroPad, Bool.and_eq_true] at hguard
  obtain ⟨⟨⟨hlow, hhigh⟩, hfill⟩, htype⟩ := hguard
  refine ⟨hinput, hlow, hhigh, ?_, htype⟩
  cases hconstant : input.fill with
  | constant fill =>
    rw [hconstant] at hfill
    exact ⟨fill, rfl, hfill⟩
  | region name captures =>
    rw [hconstant] at hfill
    exact absurd hfill (by simp)

section Inputs

variable {owner : ι} {i : Nat} {value : ι} (honce : Once f)
  (hcreated : ∀ q ∈ (demoteInput f (.new owner i) value).1, q ∈ between depthwise claimed f)
  (htype : (typeOf f value).isRankedF32)

include honce

/-- A truncation is traced to what it truncates. -/
theorem original_truncated {result : Extended ι} {source : ι}
    (h : truncateToF16 f result source ∈ between depthwise claimed f) (hsource : (typeOf f source).isRankedF32) :
    originalF32Source (between depthwise claimed f) result = some (.old source) := by
  have hbody : bodyOf (between depthwise claimed f) result = _ := honce.between.bodyOf h
  unfold originalF32Source
  rw [hbody]
  simp only [truncateToF16, typeOf_between honce]
  exact if_pos ⟨by decide, hsource⟩

/-- A pad or a collapse is not a truncation. -/
theorem original_other {q : Op (Extended ι)} (h : q ∈ between depthwise claimed f)
    (hother : ∀ region inputs inits attrs, q.body ≠ .generic region inputs inits attrs) :
    originalF32Source (between depthwise claimed f) q.result = none := by
  unfold originalF32Source
  rw [honce.between.bodyOf h]
  split
  · rename_i heq
    exact absurd (Option.some.inj heq) (hother _ _ _ _)
  · rfl

/-- A pad over a truncation is rebuilt over what was truncated. -/
theorem promotedF32Source_pad {fresh : Role → Extended (Extended ι)} {fuel depth : Nat}
    {result truncated : Extended ι}
    {source : ι} {type : ValueType} {low high : List (Amount ι)} {fill : Fill (Extended ι)}
    (hpad : ⟨result, type.clone .f16, .pad truncated (low.map (Amount.map .old)) (high.map (Amount.map .old)) fill⟩ ∈
      between depthwise claimed f)
    (htruncated : truncateToF16 f truncated source ∈ between depthwise claimed f)
    (hsource : (typeOf f source).isRankedF32) (hlow : low.all Amount.isStatic) (hhigh : high.all Amount.isStatic) :
    promotedF32Source (between depthwise claimed f) fresh (fuel + 1) depth result =
      some ([⟨fresh .padded, type.clone .f32, .pad (original source) (low.map (Amount.map original))
        (high.map (Amount.map original)) (.constant (.f32 0))⟩], fresh .padded) := by
  have hnone := original_other honce hpad fun _ _ _ _ => by simp
  have hbody : bodyOf (between depthwise claimed f) result = _ := honce.between.bodyOf hpad
  have htype : typeOf (between depthwise claimed f) result = _ := honce.between.typeOf hpad
  rw [promotedF32Source, hnone]
  simp only [hbody, htype, original_truncated honce htruncated hsource, static_map, clone_clone, amounts_map_map]
  exact if_pos ⟨hlow, hhigh⟩

include hcreated htype

/-- **Each input passes the check.** -/
theorem tracesToTruncation_demoted :
    tracesToTruncation (between depthwise claimed f) (demoteInput f (.new owner i) value).2 = true := by
  cases hthrough : demotedThrough f value with
  | none =>
    simp only [demoteInput, hthrough, List.mem_singleton, forall_eq] at hcreated ⊢
    have hbody : bodyOf (between depthwise claimed f) (.new owner i .truncated) = _ := honce.between.bodyOf hcreated
    simp only [tracesToTruncation, hbody, truncateToF16]
    rw [original_truncated honce hcreated htype]
    rfl
  | some input =>
    obtain ⟨-, -, -, -, hsource⟩ := demotedThrough_some hthrough
    cases hcollapse : input.collapse with
    | none =>
      simp only [demoteInput, hthrough, hcollapse, List.mem_cons, List.not_mem_nil, or_false, forall_eq_or_imp,
        forall_eq] at hcreated ⊢
      have hpad : bodyOf (between depthwise claimed f) (.new owner i .padded) = _ := honce.between.bodyOf hcreated.2
      simp only [tracesToTruncation, hpad]
      rw [truncateToF16, original_truncated honce hcreated.1 hsource]
      rfl
    | some collapse =>
      simp only [demoteInput, hthrough, hcollapse, List.mem_cons, List.not_mem_nil, or_false, forall_eq_or_imp,
        forall_eq] at hcreated ⊢
      have hcollapsed : bodyOf (between depthwise claimed f) (.new owner i (.collapsed 0)) = _ :=
        honce.between.bodyOf hcreated.2.2
      have hpad : bodyOf (between depthwise claimed f) (.new owner i .padded) = _ := honce.between.bodyOf hcreated.2.1
      simp only [tracesToTruncation, hcollapsed, hpad]
      rw [truncateToF16, original_truncated honce hcreated.1 hsource]
      rfl

/-- **Each input is rebuilt over what was truncated.** -/
theorem promotedF32Source_eq (fresh : Role → Extended (Extended ι)) :
    promotedF32Source (between depthwise claimed f) fresh ((between depthwise claimed f).length + 1) 0
      (demoteInput f (.new owner i) value).2 = some (restoredInput f fresh value) := by
  cases hthrough : demotedThrough f value with
  | none =>
    simp only [demoteInput, restoredInput, hthrough, List.mem_singleton, forall_eq] at hcreated ⊢
    rw [promotedF32Source, original_truncated honce hcreated htype]
    rfl
  | some input =>
    obtain ⟨-, hlow, hhigh, -, hsource⟩ := demotedThrough_some hthrough
    cases hcollapse : input.collapse with
    | none =>
      simp only [demoteInput, restoredInput, hthrough, hcollapse, List.mem_cons, List.not_mem_nil, or_false,
        forall_eq_or_imp, forall_eq] at hcreated ⊢
      exact promotedF32Source_pad honce hcreated.2 hcreated.1 hsource hlow hhigh
    | some collapse =>
      simp only [demoteInput, restoredInput, hthrough, hcollapse, List.mem_cons, List.not_mem_nil, or_false,
        forall_eq_or_imp, forall_eq] at hcreated ⊢
      obtain ⟨htruncated, hpad, hcollapsed⟩ := hcreated
      have hnone := original_other honce hcollapsed fun _ _ _ _ => by simp
      have hbody : bodyOf (between depthwise claimed f) (.new owner i (.collapsed 0)) = _ :=
        honce.between.bodyOf hcollapsed
      have htypes : typeOf (between depthwise claimed f) (.new owner i (.collapsed 0)) = _ :=
        honce.between.typeOf hcollapsed
      obtain ⟨fuel, hfuel⟩ : ∃ fuel, (between depthwise claimed f).length = fuel + 1 :=
        ⟨_, (Nat.succ_pred_eq_of_pos (List.length_pos_of_mem hpad)).symm⟩
      rw [promotedF32Source, hnone, hfuel]
      simp only [hbody, htypes, promotedF32Source_pad honce hpad htruncated hsource hlow hhigh, clone_clone]
      rfl

end Inputs

/-! ### Promotion -/

/-- A demoted operation that was not claimed. -/
structure Unclaimed (depthwise : Bool) (claimed : ι → Bool) (f : Func ι) (op : Op ι) (kind : Kind)
    (inputs inits : List ι) (attrs : Attrs) : Prop extends Demoted depthwise f op kind inputs inits attrs where
  unclaimed : ¬ claimed op.result

/-- What takes its place behind both passes. -/
def restoredOp (f : Func ι) (op : Op ι) (kind : Kind) (inputs inits : List ι) (attrs : Attrs) :
    Op (Extended (Extended ι)) :=
  ⟨original op.result, op.type, .contraction kind
    ((inputs.mapIdx fun i value => restoredInput f (.new (.old op.result) i) value).map Prod.snd) (inits.map original)
    (removeAttr (rebuiltAttrs kind (setAttr (rebuiltAttrs kind attrs) kDemotedAttrName "unit")) kDemotedAttrName)⟩

/-- The operations between the passes. -/
theorem mem_between_iff {q : Op (Extended ι)} : q ∈ between depthwise claimed f ↔
    (∃ op ∈ f, (∀ kind inputs inits attrs, ¬ Unclaimed depthwise claimed f op kind inputs inits attrs) ∧
      q = (claimOp claimed op).map .old) ∨
    ∃ op ∈ f, ∃ kind inputs inits attrs, (Unclaimed depthwise claimed f op kind inputs inits attrs ∧
        q = demotedOp f op kind inputs inits attrs) ∨
      Demoted depthwise f op kind inputs inits attrs ∧ ∃ i value, inputs[i]? = some value ∧
        q ∈ (demoteInput f (.new op.result i) value).1 := by
  constructor
  · intro hq
    obtain ⟨q, hmem, rfl⟩ := List.mem_map.mp hq
    obtain ⟨op, hop, hmem⟩ := List.mem_flatMap.mp hmem
    rcases mem_demoteOp.mp hmem with ⟨hnot, rfl⟩ | ⟨kind, inputs, inits, attrs, hdemoted, hq⟩
    · exact .inl ⟨op, hop, fun _ _ _ _ h => hnot _ _ _ _ h.toDemoted, claimOp_map _ _⟩
    rcases hq with rfl | ⟨i, value, hvalue, hq⟩
    · by_cases hclaimed : claimed op.result
      · refine .inl ⟨op, hop, fun _ _ _ _ h => h.unclaimed hclaimed, ?_⟩
        rw [claimOp_contraction hclaimed hdemoted.body]
        exact claimOp_contraction hclaimed rfl
      · exact .inr ⟨op, hop, kind, inputs, inits, attrs, .inl ⟨⟨hdemoted, hclaimed⟩, claimOp_of_not hclaimed⟩⟩
    · obtain ⟨role, hrole⟩ := demoteInput_result hq
      rw [claimOp_of_not (by simp [hrole, claimedOf])]
      exact .inr ⟨op, hop, kind, inputs, inits, attrs, .inr ⟨hdemoted, i, value, hvalue, hq⟩⟩
  · rintro (⟨op, hop, hnot, rfl⟩ | ⟨op, hop, kind, inputs, inits, attrs,
      ⟨hunclaimed, rfl⟩ | ⟨hdemoted, i, value, hvalue, hq⟩⟩)
    · by_cases h : ∃ kind inputs inits attrs, Demoted depthwise f op kind inputs inits attrs
      · obtain ⟨kind, inputs, inits, attrs, hdemoted⟩ := h
        have hclaimed : claimed op.result := by
          by_contra hclaimed
          exact hnot _ _ _ _ ⟨hdemoted, hclaimed⟩
        have hcall : claimOp (claimedOf claimed) (demotedOp f op kind inputs inits attrs) =
            (claimOp claimed op).map .old := by
          rw [claimOp_contraction hclaimed hdemoted.body]
          exact claimOp_contraction hclaimed rfl
        exact hcall ▸ List.mem_map_of_mem (List.mem_flatMap.mpr ⟨op, hop,
          mem_demoteOp.mpr (.inr ⟨kind, inputs, inits, attrs, hdemoted, .inl rfl⟩)⟩)
      · have hnone : ∀ kind inputs inits attrs, ¬ Demoted depthwise f op kind inputs inits attrs :=
          fun kind inputs inits attrs hdemoted => h ⟨kind, inputs, inits, attrs, hdemoted⟩
        exact claimOp_map claimed op ▸ List.mem_map_of_mem
          (List.mem_flatMap.mpr ⟨op, hop, mem_demoteOp.mpr (.inl ⟨hnone, rfl⟩)⟩)
    · refine mem_between (List.mem_flatMap.mpr ⟨op, hop, mem_demoteOp.mpr (.inr ⟨kind, inputs, inits, attrs,
        hunclaimed.toDemoted, .inl rfl⟩)⟩) hunclaimed.unclaimed
    · obtain ⟨role, hrole⟩ := demoteInput_result hq
      exact mem_between (List.mem_flatMap.mpr ⟨op, hop, mem_demoteOp.mpr (.inr ⟨kind, inputs, inits, attrs,
        hdemoted, .inr ⟨i, value, hvalue, hq⟩⟩)⟩) (by simp [hrole, claimedOf])

/-- What is no tagged contraction is left. -/
theorem promoteOp_left {g : Func (Extended ι)} {q : Op (Extended ι)}
    (h : ∀ kind inputs inits attrs, q.body = .contraction kind inputs inits attrs →
      ¬ hasAttr attrs kDemotedAttrName) :
    promoteOp g q = some [q.map .old] := by
  unfold promoteOp
  split
  · rename_i kind inputs inits attrs hbody
    exact if_neg fun hguard => h _ _ _ _ hbody hguard.1
  · rfl

theorem hasAttr_setAttr (attrs : Attrs) (name value : String) : hasAttr (setAttr attrs name value) name := by
  simp [hasAttr, setAttr]

/-- **A demoted operation that was not claimed is promoted on all its inputs.** -/
theorem promoteOp_demoted (honce : Once f) (hop : op ∈ f)
    (h : Unclaimed depthwise claimed f op kind inputs inits attrs) :
    promoteOp (between depthwise claimed f) (demotedOp f op kind inputs inits attrs) =
      some ((inputs.mapIdx fun i value => restoredInput f (.new (.old op.result) i) value).flatMap Prod.fst ++
        [restoredOp f op kind inputs inits attrs]) := by
  have hcreated : ∀ i value, inputs[i]? = some value →
      ∀ q ∈ (demoteInput f (.new op.result i) value).1, q ∈ between depthwise claimed f := fun i value hvalue q hq =>
    mem_between_iff.mpr (.inr ⟨op, hop, kind, inputs, inits, attrs, .inr ⟨h.toDemoted, i, value, hvalue, hq⟩⟩)
  have htype : ∀ i value, inputs[i]? = some value → (typeOf f value).isRankedF32 := fun i value hvalue =>
    h.ranked value (List.mem_append_left _ (List.mem_of_getElem? hvalue))
  have hcheck : ((inputs.mapIdx fun i value => demoteInput f (.new op.result i) value).map Prod.snd).all
      (tracesToTruncation (between depthwise claimed f)) = true := by
    refine List.all_eq_true.mpr fun input hinput => ?_
    obtain ⟨demoted, hdemoted, rfl⟩ := List.mem_map.mp hinput
    obtain ⟨i, hi, rfl⟩ := List.mem_mapIdx.mp hdemoted
    exact tracesToTruncation_demoted honce (hcreated i _ (List.getElem?_eq_getElem hi))
      (htype i _ (List.getElem?_eq_getElem hi))
  have hpromoted : (((inputs.mapIdx fun i value => demoteInput f (.new op.result i) value).map Prod.snd).mapIdx
      fun i input => promotedF32Source (between depthwise claimed f) (.new (.old op.result) i)
        ((between depthwise claimed f).length + 1) 0 input) =
      (inputs.mapIdx fun i value => restoredInput f (.new (.old op.result) i) value).map some := by
    refine List.ext_getElem (by simp) fun i hi hi' => ?_
    simp only [List.getElem_mapIdx, List.getElem_map]
    have hlt : i < inputs.length := by simpa using hi'
    exact promotedF32Source_eq honce (hcreated i _ (List.getElem?_eq_getElem hlt))
      (htype i _ (List.getElem?_eq_getElem hlt)) _
  have hinits : (inits.map Extended.old).map Extended.old = inits.map original := List.map_map
  unfold promoteOp
  simp only [demotedOp]
  rw [if_pos ⟨hasAttr_setAttr _ _ _, hcheck⟩, hpromoted, mapM_some_iff.mpr (List.map_id _), hinits]
  rfl

/-- The operations behind both passes: those that stand where they were, those that were demoted and promoted
with what is rebuilt for their inputs, and what demotion created. -/
inductive Promoted (depthwise : Bool) (claimed : ι → Bool) (f : Func ι) : Op (Extended (Extended ι)) → Prop
  | left {op : Op ι} (hop : op ∈ f)
      (hnot : ∀ kind inputs inits attrs, ¬ Unclaimed depthwise claimed f op kind inputs inits attrs) :
      Promoted depthwise claimed f ((claimOp claimed op).map original)
  | restored {op : Op ι} {kind : Kind} {inputs inits : List ι} {attrs : Attrs} (hop : op ∈ f)
      (h : Unclaimed depthwise claimed f op kind inputs inits attrs) :
      Promoted depthwise claimed f (restoredOp f op kind inputs inits attrs)
  | rebuilt {op : Op ι} {kind : Kind} {inputs inits : List ι} {attrs : Attrs} (hop : op ∈ f)
      (h : Unclaimed depthwise claimed f op kind inputs inits attrs) {i : Nat} {value : ι}
      (hvalue : inputs[i]? = some value) {q : Op (Extended (Extended ι))}
      (hq : q ∈ (restoredInput f (.new (.old op.result) i) value).1) : Promoted depthwise claimed f q
  | created {op : Op ι} {kind : Kind} {inputs inits : List ι} {attrs : Attrs} (hop : op ∈ f)
      (h : Demoted depthwise f op kind inputs inits attrs) {i : Nat} {value : ι}
      (hvalue : inputs[i]? = some value) {q : Op (Extended ι)}
      (hq : q ∈ (demoteInput f (.new op.result i) value).1) : Promoted depthwise claimed f (q.map .old)

theorem demoteInput_body {owner : ι} {i : Nat} {value : ι} {q : Op (Extended ι)}
    (h : q ∈ (demoteInput f (.new owner i) value).1) {kind : Kind} {inputs inits : List (Extended ι)}
    {attrs : Attrs} :
    q.body ≠ .contraction kind inputs inits attrs := by
  unfold demoteInput at h
  split at h
  · split at h
    · simp only [List.mem_cons, List.not_mem_nil, or_false] at h
      rcases h with rfl | rfl <;> simp [truncateToF16]
    · simp only [List.mem_cons, List.not_mem_nil, or_false] at h
      rcases h with rfl | rfl | rfl <;> simp [truncateToF16]
  · simp only [List.mem_singleton] at h
    subst h
    simp [truncateToF16]

/-- **Promotion of what demotion and the match loop leave** builds no operation with an operand that is null. -/
theorem promote_between (honce : Once f) (huntagged : Untagged f) :
    ∃ f', promote (between depthwise claimed f) = some f' ∧ ∀ q, q ∈ f' ↔ Promoted depthwise claimed f q := by
  have hleft : ∀ op ∈ f, promoteOp (between depthwise claimed f) ((claimOp claimed op).map .old) =
      some [(claimOp claimed op).map original] := fun op hop => by
    rw [← Op.map_map]
    exact promoteOp_left fun kind inputs inits attrs hbody => claimed_untagged huntagged hop hbody
  have hcreated : ∀ {op : Op ι} {i : Nat} {value : ι} {q : Op (Extended ι)},
      q ∈ (demoteInput f (.new op.result i) value).1 →
        promoteOp (between depthwise claimed f) q = some [q.map .old] := fun hq =>
    promoteOp_left fun _ _ _ _ hbody => absurd hbody (demoteInput_body hq)
  have hsome : ∀ q ∈ between depthwise claimed f, promoteOp (between depthwise claimed f) q =
      some ((promoteOp (between depthwise claimed f) q).getD []) := fun q hq => by
    rcases mem_between_iff.mp hq with ⟨op, hop, -, rfl⟩ | ⟨op, hop, kind, inputs, inits, attrs,
      ⟨h, rfl⟩ | ⟨-, i, value, -, hq⟩⟩
    · rw [hleft op hop]
      rfl
    · rw [promoteOp_demoted honce hop h]
      rfl
    · rw [hcreated hq]
      rfl
  have hall := (List.map_congr_left hsome).trans List.map_map.symm
  refine ⟨_, congrArg (Option.map List.flatten) (mapM_some_iff.mpr hall), fun q' => ?_⟩
  rw [← List.flatMap_def, List.mem_flatMap]
  constructor
  · rintro ⟨q, hq, hq'⟩
    rcases mem_between_iff.mp hq with ⟨op, hop, hnot, rfl⟩ | ⟨op, hop, kind, inputs, inits, attrs,
      ⟨h, rfl⟩ | ⟨h, i, value, hvalue, hq⟩⟩
    · rw [hleft op hop] at hq'
      obtain rfl := List.mem_singleton.mp hq'
      exact .left hop hnot
    · rw [promoteOp_demoted honce hop h] at hq'
      rcases List.mem_append.mp hq' with hq' | hq'
      · obtain ⟨restored, hrestored, hq'⟩ := List.mem_flatMap.mp hq'
        obtain ⟨i, hi, rfl⟩ := List.mem_mapIdx.mp hrestored
        exact .rebuilt hop h (List.getElem?_eq_getElem hi) hq'
      · obtain rfl := List.mem_singleton.mp hq'
        exact .restored hop h
    · rw [hcreated hq] at hq'
      obtain rfl := List.mem_singleton.mp hq'
      exact .created hop h hvalue hq
  · intro hq'
    cases hq' with
    | @left op hop hnot =>
      refine ⟨_, mem_between_iff.mpr (.inl ⟨op, hop, hnot, rfl⟩), ?_⟩
      rw [hleft op hop]
      exact List.mem_singleton_self _
    | @restored op kind inputs inits attrs hop h =>
      refine ⟨_, mem_between_iff.mpr (.inr ⟨op, hop, kind, inputs, inits, attrs, .inl ⟨h, rfl⟩⟩), ?_⟩
      rw [promoteOp_demoted honce hop h]
      exact List.mem_append_right _ (List.mem_singleton_self _)
    | @rebuilt op kind inputs inits attrs hop h i value hvalue q hq =>
      refine ⟨_, mem_between_iff.mpr (.inr ⟨op, hop, kind, inputs, inits, attrs, .inl ⟨h, rfl⟩⟩), ?_⟩
      rw [promoteOp_demoted honce hop h]
      obtain ⟨hi, rfl⟩ := List.getElem?_eq_some_iff.mp hvalue
      exact List.mem_append_left _ (List.mem_flatMap.mpr ⟨_, List.mem_mapIdx.mpr ⟨i, hi, rfl⟩, hq⟩)
    | @created op kind inputs inits attrs hop h i value hvalue q hq =>
      refine ⟨q, mem_between_iff.mpr (.inr ⟨op, hop, kind, inputs, inits, attrs, .inr ⟨h, i, value, hvalue, hq⟩⟩), ?_⟩
      rw [hcreated hq]
      exact List.mem_singleton_self _

end IreeRocket.Plugin.ConvInputs
