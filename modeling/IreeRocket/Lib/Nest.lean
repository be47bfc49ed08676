import Mathlib.Algebra.BigOperators.Group.List.Basic
import Mathlib.Data.List.Lex

/-!
# Nested counting loops

`nest bounds` lists the index vectors that a nest of loops `for i in 0..n` visits, outermost loop
first. It visits each vector below the bounds once, in increasing lexicographic order, so whatever a
body derives from distinct vectors is visited once as well.
-/

namespace IreeRocket.Nest

/-- The index vectors of a nest of loops over the bounds. -/
def nest : List Nat → List (List Nat)
  | [] => [[]]
  | n :: bounds => (List.range n).flatMap fun i => (nest bounds).map (i :: ·)

/-- A vector is visited when each of its indices is below its loop's bound. -/
theorem mem_nest {bounds v : List Nat} : v ∈ nest bounds ↔ List.Forall₂ (· < ·) v bounds := by
  induction bounds generalizing v with
  | nil => simp [nest]
  | cons n bounds ih =>
    simp only [nest, List.mem_flatMap, List.mem_range, List.mem_map, ih]
    constructor
    · rintro ⟨i, hi, w, hw, rfl⟩
      exact .cons hi hw
    · intro h
      cases h with
      | cons hi hw => exact ⟨_, hi, _, hw, rfl⟩

/-- **The visits are in lexicographic order.** -/
theorem nest_sorted (bounds : List Nat) : (nest bounds).Pairwise (List.Lex (· < ·)) := by
  induction bounds with
  | nil => simp [nest]
  | cons n bounds ih =>
    rw [nest, List.pairwise_flatMap]
    constructor
    · intro i _
      rw [List.pairwise_map]
      exact ih.imp .cons
    · refine List.pairwise_lt_range.imp fun {i j} hij v hv w hw => ?_
      obtain ⟨v, -, rfl⟩ := List.mem_map.mp hv
      obtain ⟨w, -, rfl⟩ := List.mem_map.mp hw
      exact .rel hij

theorem nodup_of_sorted {l : List (List Nat)} (h : l.Pairwise (List.Lex (· < ·))) : l.Nodup := by
  refine h.imp fun {v w} hlex heq => ?_
  subst heq
  exact irrefl_of (List.Lex (· < ·)) v hlex

/-- A filtered nest visits each vector once. -/
theorem nodup_filter_nest (bounds : List Nat) (p : List Nat → Bool) : ((nest bounds).filter p).Nodup :=
  nodup_of_sorted ((nest_sorted bounds).filter p)

/-! ### Loops with a guard -/

/-- A loop whose body is one guarded visit. -/
theorem flatMap_guard {α β γ : Type} (l : List α) (g : α → β) (p : β → Bool) (f : β → γ) :
    (l.flatMap fun a => ([g a].filter p).map f) =
      l.filterMap fun a => if p (g a) then some (f (g a)) else none := by
  induction l with
  | nil => rfl
  | cons a l ih =>
    by_cases hp : p (g a) = true
    · simp [hp, ih]
    · simp [hp, ih]

/-- A value that one member of a duplicate-free list yields is yielded once. -/
theorem countP_map_eq_one {α β : Type} {l : List α} (hl : l.Nodup) {f : α → β} {q : β → Bool} {a : α}
    (ha : a ∈ l) (hq : q (f a) = true) (honly : ∀ b ∈ l, q (f b) = true → b = a) :
    (l.map f).countP q = 1 := by
  rw [List.countP_map, List.countP_eq_length_filter]
  have hfilter : l.filter (q ∘ f) = [a] := by
    have hnodup : (l.filter (q ∘ f)).Nodup := hl.filter _
    have hmem : ∀ b, b ∈ l.filter (q ∘ f) ↔ b = a := by
      intro b
      rw [List.mem_filter]
      constructor
      · rintro ⟨hb, hqb⟩
        exact honly b hb hqb
      · rintro rfl
        exact ⟨ha, hq⟩
    exact List.perm_singleton.mp ((List.perm_ext_iff_of_nodup hnodup (by simp)).mpr fun b => by
      rw [hmem, List.mem_singleton])
  rw [hfilter, List.length_singleton]

/-- What occurs once occurs at one index. -/
theorem exists_index_of_countP {α : Type} {l : List α} {p : α → Bool} (h : l.countP p = 1) :
    ∃ (i : Nat) (a : α), l[i]? = some a ∧ p a = true ∧
      ∀ (j : Nat) (b : α), l[j]? = some b → p b = true → j = i := by
  induction l with
  | nil => cases h
  | cons a l ih =>
    rw [List.countP_cons] at h
    by_cases ha : p a = true
    · rw [if_pos ha] at h
      refine ⟨0, a, rfl, ha, fun j b hj hb => ?_⟩
      cases j with
      | zero => rfl
      | succ j =>
        rw [List.getElem?_cons_succ] at hj
        have hnone := List.countP_eq_zero.mp (Nat.succ.inj h) b (List.mem_of_getElem? hj)
        exact absurd hb hnone
    · rw [if_neg ha] at h
      obtain ⟨i, b, hi, hb, honly⟩ := ih h
      refine ⟨i + 1, b, by rwa [List.getElem?_cons_succ], hb, fun j c hj hc => ?_⟩
      cases j with
      | zero =>
        obtain rfl := Option.some.inj hj
        exact absurd hc ha
      | succ j =>
        rw [List.getElem?_cons_succ] at hj
        rw [honly j c hj hc]

end IreeRocket.Nest
