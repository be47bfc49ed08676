import Mathlib.Data.List.Perm.Basic
import Mathlib.Data.List.Nodup
import Mathlib.Logic.Relation
import Mathlib.Order.Basic
import Mathlib.Tactic.Common

/-!
# Uses of a value through relays

A program reads values at positions. Some uses only relay the value read: they hand it on under
another name. The readers of a value are the other uses of it and of the values it is relayed to.
They can be found forwards, by a walk from the value over its uses, and backwards, by following each
use to the value it reads in the end. `leaves_perm` says that both find the same uses, each once.
-/

namespace IreeRocket.Uses

variable {ι V : Type*}

/-- The uses of a program. A relay makes a value of higher rank, below `limit`, and no other relay
makes the same value. -/
structure Relays (ι V : Type*) where
  uses : List ι
  nodup : uses.Nodup
  value : ι → V
  relay : ι → Option V
  rank : V → Nat
  limit : Nat
  rank_lt : ∀ {i w}, i ∈ uses → relay i = some w → rank (value i) < rank w
  rank_le : ∀ {i w}, i ∈ uses → relay i = some w → rank w ≤ limit
  relay_inj : ∀ {i j w}, i ∈ uses → j ∈ uses → relay i = some w → relay j = some w → i = j

namespace Relays

variable (g : Relays ι V)

/-- `w` is `v` relayed once. -/
def Step (v w : V) : Prop := ∃ i ∈ g.uses, g.value i = v ∧ g.relay i = some w

/-- `w` is `v`, relayed any number of times. -/
def Carries : V → V → Prop := Relation.ReflTransGen g.Step

/-- What a value holds in the end: `origin` follows relays backwards. -/
structure Origin (origin : V → V) : Prop where
  relayed : ∀ {i w}, i ∈ g.uses → g.relay i = some w → origin w = origin (g.value i)
  made : ∀ {w}, (∀ i ∈ g.uses, g.relay i ≠ some w) → origin w = w

/-- The walk from a value over its uses. -/
def leaves [DecidableEq V] : Nat → V → List ι
  | 0, _ => []
  | fuel + 1, v =>
    (g.uses.filter fun i => g.value i = v).flatMap fun i =>
      match g.relay i with
      | some w => leaves fuel w
      | none => [i]

variable {g}

theorem Step.rank_lt {v w : V} (h : g.Step v w) : g.rank v < g.rank w := by
  obtain ⟨i, hi, rfl, hrelay⟩ := h
  exact g.rank_lt hi hrelay

theorem Step.unique {u v w : V} (hu : g.Step u w) (hv : g.Step v w) : u = v := by
  obtain ⟨i, hi, rfl, hrelay⟩ := hu
  obtain ⟨j, hj, rfl, hrelay'⟩ := hv
  rw [g.relay_inj hi hj hrelay hrelay']

theorem Carries.rank_le {v w : V} (h : g.Carries v w) : g.rank v ≤ g.rank w := by
  induction h with
  | refl => exact Nat.le_refl _
  | tail _ hstep ih => exact Nat.le_trans ih (Nat.le_of_lt hstep.rank_lt)

theorem Step.rank_le {v w : V} (h : g.Step v w) : g.rank w ≤ g.limit := by
  obtain ⟨i, hi, -, hrelay⟩ := h
  exact g.rank_le hi hrelay

/-- Two relays of one value never meet again. -/
theorem Carries.disjoint {v w w' x : V} (hw : g.Step v w) (hw' : g.Step v w') (hne : w ≠ w')
    (hx : g.Carries w x) : ¬ g.Carries w' x := by
  induction hx with
  | refl =>
    intro hback
    rcases Relation.ReflTransGen.cases_tail hback with heq | ⟨y, hpath, hlast⟩
    · exact hne heq
    · obtain rfl := hlast.unique hw
      exact absurd (Carries.rank_le hpath) (Nat.not_le.mpr hw'.rank_lt)
  | tail hpath hlast ih =>
    intro hback
    rcases Relation.ReflTransGen.cases_tail hback with heq | ⟨y, hpath', hlast'⟩
    · subst heq
      obtain rfl := hlast.unique hw'
      exact absurd (Carries.rank_le hpath) (Nat.not_le.mpr hw.rank_lt)
    · obtain rfl := hlast'.unique hlast
      exact ih hpath'

theorem Origin.carries {origin : V → V} (h : g.Origin origin) (v : V) :
    g.Carries (origin v) v := by
  induction hn : g.rank v using Nat.strongRecOn generalizing v with
  | ind n ih =>
    by_cases hmade : ∀ i ∈ g.uses, g.relay i ≠ some v
    · rw [h.made hmade]
      exact .refl
    · obtain ⟨i, hi, hrelay⟩ : ∃ i ∈ g.uses, g.relay i = some v := by
        by_contra hcontra
        exact hmade fun i hi hrelay => hcontra ⟨i, hi, hrelay⟩
      rw [h.relayed hi hrelay]
      exact .tail (ih _ (hn ▸ g.rank_lt hi hrelay) _ rfl) ⟨i, hi, rfl, hrelay⟩

theorem Origin.of_carries {origin : V → V} (h : g.Origin origin) {v w : V}
    (hcarries : g.Carries v w) : origin w = origin v := by
  induction hcarries with
  | refl => rfl
  | tail _ hstep ih =>
    obtain ⟨i, hi, rfl, hrelay⟩ := hstep
    rw [h.relayed hi hrelay, ih]

variable [DecidableEq V]

theorem mem_leaves_succ {fuel : Nat} {v : V} {i : ι} :
    i ∈ g.leaves (fuel + 1) v ↔ (i ∈ g.uses ∧ g.value i = v ∧ g.relay i = none) ∨
      ∃ w, g.Step v w ∧ i ∈ g.leaves fuel w := by
  rw [leaves]
  simp only [List.mem_flatMap, List.mem_filter, decide_eq_true_eq]
  constructor
  · rintro ⟨j, ⟨hj, hvalue⟩, hmem⟩
    cases hrelay : g.relay j with
    | none =>
      simp only [hrelay, List.mem_singleton] at hmem
      subst hmem
      exact .inl ⟨hj, hvalue, hrelay⟩
    | some w =>
      simp only [hrelay] at hmem
      exact .inr ⟨w, ⟨j, hj, hvalue, hrelay⟩, hmem⟩
  · rintro (⟨hi, hvalue, hrelay⟩ | ⟨w, ⟨j, hj, hvalue, hrelay⟩, hmem⟩)
    · exact ⟨i, ⟨hi, hvalue⟩, by simp [hrelay]⟩
    · exact ⟨j, ⟨hj, hvalue⟩, by simpa [hrelay] using hmem⟩

/-- With fuel for every relay above the value, the walk finds the uses of what carries it. -/
theorem mem_leaves {fuel : Nat} {v : V} {i : ι} (hrank : g.rank v ≤ g.limit)
    (hfuel : g.limit < fuel + g.rank v) :
    i ∈ g.leaves fuel v ↔ i ∈ g.uses ∧ g.relay i = none ∧ g.Carries v (g.value i) := by
  induction fuel generalizing v with
  | zero => omega
  | succ fuel ih =>
    rw [mem_leaves_succ]
    constructor
    · rintro (⟨hi, hvalue, hrelay⟩ | ⟨w, hstep, hmem⟩)
      · exact ⟨hi, hrelay, hvalue ▸ Relation.ReflTransGen.refl⟩
      · have hlt := hstep.rank_lt
        obtain ⟨hi, hrelay, hcarries⟩ := (ih hstep.rank_le (by omega)).mp hmem
        exact ⟨hi, hrelay, .head hstep hcarries⟩
    · rintro ⟨hi, hrelay, hcarries⟩
      rcases Relation.ReflTransGen.cases_head hcarries with heq | ⟨w, hstep, hrest⟩
      · exact .inl ⟨hi, heq.symm, hrelay⟩
      · have hlt := hstep.rank_lt
        exact .inr ⟨w, hstep, (ih hstep.rank_le (by omega)).mpr ⟨hi, hrelay, hrest⟩⟩

/-- The walk meets no use twice. -/
theorem nodup_leaves {fuel : Nat} {v : V} (hrank : g.rank v ≤ g.limit)
    (hfuel : g.limit < fuel + g.rank v) : (g.leaves fuel v).Nodup := by
  induction fuel generalizing v with
  | zero => omega
  | succ fuel ih =>
    rw [leaves, List.nodup_flatMap]
    refine ⟨fun i hi => ?_, (g.nodup.filter _).imp_of_mem fun {i j} hi hj hne => ?_⟩
    · simp only [List.mem_filter, decide_eq_true_eq] at hi
      cases hrelay : g.relay i with
      | none => exact List.nodup_singleton i
      | some w =>
        have hlt := g.rank_lt hi.1 hrelay
        rw [hi.2] at hlt
        exact ih (g.rank_le hi.1 hrelay) (by omega)
    · simp only [List.mem_filter, decide_eq_true_eq] at hi hj
      intro k hki hkj
      -- a use of the value itself is no use of what relays it
      have hown : ∀ {a b w}, g.value a = v → g.Step v w → g.relay b = some w →
          k ∈ g.leaves fuel w → k = a → False := by
        intro a b w hvalue hstep _ hmem heq
        subst heq
        have hlt := hstep.rank_lt
        obtain ⟨-, -, hcarries⟩ := (mem_leaves hstep.rank_le (by omega)).mp hmem
        exact absurd hcarries.rank_le (by rw [hvalue]; omega)
      cases hrelay : g.relay i with
      | none =>
        simp only [hrelay, List.mem_singleton] at hki
        cases hrelay' : g.relay j with
        | none =>
          simp only [hrelay', List.mem_singleton] at hkj
          exact hne (hki.symm.trans hkj)
        | some w =>
          simp only [hrelay'] at hkj
          exact hown hi.2 ⟨j, hj.1, hj.2, hrelay'⟩ hrelay' hkj hki
      | some w =>
        simp only [hrelay] at hki
        have hstep : g.Step v w := ⟨i, hi.1, hi.2, hrelay⟩
        cases hrelay' : g.relay j with
        | none =>
          simp only [hrelay', List.mem_singleton] at hkj
          exact hown hj.2 hstep hrelay hki hkj
        | some w' =>
          simp only [hrelay'] at hkj
          have hstep' : g.Step v w' := ⟨j, hj.1, hj.2, hrelay'⟩
          have hlt := hstep.rank_lt
          have hlt' := hstep'.rank_lt
          have hne' : w ≠ w' := fun heq => hne (g.relay_inj hi.1 hj.1 hrelay (heq ▸ hrelay'))
          obtain ⟨-, -, hcarries⟩ := (mem_leaves hstep.rank_le (by omega)).mp hki
          obtain ⟨-, -, hcarries'⟩ := (mem_leaves hstep'.rank_le (by omega)).mp hkj
          exact Carries.disjoint hstep hstep' hne' hcarries hcarries'

/-- The readers of `v`, found backwards. -/
def readers (g : Relays ι V) (origin : V → V) (v : V) : List ι :=
  g.uses.filter fun i => (g.relay i).isNone && origin (g.value i) = v

/-- **Forwards and backwards.** The walk from a value that no use relays to finds its readers, each
once. -/
theorem Origin.leaves_perm {origin : V → V} (h : g.Origin origin) {fuel : Nat} {v : V}
    (hmade : ∀ i ∈ g.uses, g.relay i ≠ some v) (hrank : g.rank v ≤ g.limit)
    (hfuel : g.limit < fuel + g.rank v) : (g.leaves fuel v).Perm (g.readers origin v) := by
  unfold readers
  rw [List.perm_ext_iff_of_nodup (nodup_leaves hrank hfuel) (g.nodup.filter _)]
  intro i
  rw [mem_leaves hrank hfuel, List.mem_filter, Bool.and_eq_true, Option.isNone_iff_eq_none,
    decide_eq_true_eq]
  refine and_congr_right fun _ => and_congr_right fun _ => ⟨fun hcarries => ?_, fun heq => ?_⟩
  · rw [h.of_carries hcarries, h.made hmade]
  · rw [← heq]
    exact h.carries _

end Relays

end IreeRocket.Uses
