import IreeRocket.Lib.Linalg
import Mathlib.Tactic.Ring

/-!
# Padding and collapsing tensors

Tensors are the same if their elements at the indices of the shape are. Padding two with two values gives the
same tensor exactly if they are the same and no position shows the value, or the values are equal
(`padded_same_iff`). Collapsing groups of dimensions that are all of them in their order loses nothing
(`collapsed_same_iff`), for an index is recovered from its place in row-major order.
-/

namespace IreeRocket.Linalg

variable {V : Type}

/-- The same elements, as far as the shape goes. -/
structure Same (s t : Tensor V) : Prop where
  shape : s.shape = t.shape
  elem : ∀ p, InBounds p s.shape → s.elem p = t.elem p

theorem Same.refl (t : Tensor V) : Same t t := ⟨rfl, fun _ _ => rfl⟩

theorem Same.symm {s t : Tensor V} (h : Same s t) : Same t s :=
  ⟨h.shape.symm, fun p hp => (h.elem p (h.shape ▸ hp)).symm⟩

theorem Same.trans {s t u : Tensor V} (h : Same s t) (h' : Same t u) : Same s u :=
  ⟨h.shape.trans h'.shape, fun p hp => (h.elem p hp).trans (h'.elem p (h.shape ▸ hp))⟩

/-! ### Padding -/

def paddedShape (low high : List Int) (shape : List Nat) : List Nat :=
  List.zipWith (fun (amounts : Int × Int) (size : Nat) => (amounts.1 + size + amounts.2).toNat) (low.zip high) shape

/-- The index in the source. It may lie before or behind it. -/
def sourceIndex (low : List Int) (p : List Nat) : List Int :=
  List.zipWith (fun (i : Nat) (amount : Int) => i - amount) p low

def Inside (index : List Int) (shape : List Nat) : Prop :=
  List.Forall₂ (fun (i : Int) (size : Nat) => 0 ≤ i ∧ i < size) index shape

instance (index : List Int) (shape : List Nat) : Decidable (Inside index shape) :=
  inferInstanceAs (Decidable (List.Forall₂ _ index shape))

/-- `tensor.pad`: positions before and behind each dimension have the fill. -/
def padded (low high : List Int) (fill : List Nat → V) (t : Tensor V) : Tensor V where
  shape := paddedShape low high t.shape
  elem p := if Inside (sourceIndex low p) t.shape then t.elem ((sourceIndex low p).map Int.toNat) else fill p

/-- Some position has the fill. -/
def ShowsFill (low high : List Int) (shape : List Nat) : Prop :=
  ∃ p, InBounds p (paddedShape low high shape) ∧ ¬ Inside (sourceIndex low p) shape

theorem inBounds_of_inside {index : List Int} {shape : List Nat} (h : Inside index shape) :
    InBounds (index.map Int.toNat) shape := by
  refine List.forall₂_map_left_iff.mpr (h.imp fun i size hi => ?_)
  exact (Int.toNat_lt hi.1).mpr hi.2

theorem padded_same {low high : List Int} {fill fill' : List Nat → V} {s t : Tensor V} (h : Same s t)
    (hfill : ∀ p, InBounds p (paddedShape low high s.shape) → ¬ Inside (sourceIndex low p) s.shape →
      fill p = fill' p) : Same (padded low high fill s) (padded low high fill' t) := by
  refine ⟨congrArg (paddedShape low high) h.shape, fun p hp => ?_⟩
  by_cases hinside : Inside (sourceIndex low p) s.shape
  · have hinside' : Inside (sourceIndex low p) t.shape := h.shape ▸ hinside
    exact (if_pos hinside).trans ((h.elem _ (inBounds_of_inside hinside)).trans (if_pos hinside').symm)
  · have hinside' : ¬ Inside (sourceIndex low p) t.shape := h.shape ▸ hinside
    exact (if_neg hinside).trans ((hfill p hp hinside).trans (if_neg hinside').symm)

/-- **Two fills make no difference** exactly if they are equal or no position has them. -/
theorem padded_same_iff {low high : List Int} {c c' : V} {s t : Tensor V} (h : Same s t) :
    Same (padded low high (fun _ => c) s) (padded low high (fun _ => c') t) ↔
      (ShowsFill low high s.shape → c = c') := by
  constructor
  · rintro hsame ⟨p, hp, hinside⟩
    have hinside' : ¬ Inside (sourceIndex low p) t.shape := h.shape ▸ hinside
    exact (if_neg hinside).symm.trans ((hsame.elem p hp).trans (if_neg hinside'))
  · exact fun hfill => padded_same h fun p hp hinside => hfill ⟨p, hp, hinside⟩

/-! ### Row-major order -/

theorem rowMajor_cons (size i : Nat) (shape p : List Nat) (h : p.length = shape.length) :
    rowMajor (size :: shape) (i :: p) = i * shape.prod + rowMajor shape p := by
  have hfold : ∀ (shape p : List Nat) (place : Nat), p.length = shape.length →
      (shape.zip p).foldl (fun place axis => place * axis.1 + axis.2) place =
        place * shape.prod + rowMajor shape p := by
    intro shape
    induction shape with
    | nil =>
      intro p place _
      simp [rowMajor]
    | cons size shape ih =>
      intro p place h
      cases p with
      | nil => simp at h
      | cons i p =>
        have hlength : p.length = shape.length := by simpa using h
        simp only [rowMajor, List.zip_cons_cons, List.foldl_cons, List.prod_cons]
        rw [ih p _ hlength, ih p _ hlength]
        ring
  exact (hfold shape p (0 * size + i) h).trans (by rw [Nat.zero_mul, Nat.zero_add])

theorem rowMajor_lt {p shape : List Nat} (h : InBounds p shape) : rowMajor shape p < shape.prod := by
  induction h with
  | nil => exact Nat.one_pos
  | @cons i size p shape hi hp ih =>
    rw [rowMajor_cons _ _ _ _ hp.length_eq, List.prod_cons]
    calc i * shape.prod + rowMajor shape p < i * shape.prod + shape.prod := Nat.add_lt_add_left ih _
      _ = (i + 1) * shape.prod := (Nat.succ_mul _ _).symm
      _ ≤ size * shape.prod := Nat.mul_le_mul_right _ hi

/-- The index at a place. -/
def delinearize : List Nat → Nat → List Nat
  | [], _ => []
  | _ :: shape, place => place / shape.prod :: delinearize shape (place % shape.prod)

theorem delinearize_rowMajor {p shape : List Nat} (h : InBounds p shape) :
    delinearize shape (rowMajor shape p) = p := by
  induction h with
  | nil => rfl
  | @cons i size p shape hi hp ih =>
    have hlt := rowMajor_lt hp
    have hpos : 0 < shape.prod := by omega
    rw [rowMajor_cons _ _ _ _ hp.length_eq, delinearize, Nat.add_comm, Nat.add_mul_div_right _ _ hpos,
      Nat.div_eq_of_lt hlt, Nat.zero_add, Nat.add_mul_mod_self_right, Nat.mod_eq_of_lt hlt, ih]

theorem delinearize_inBounds {shape : List Nat} {place : Nat} (h : place < shape.prod) :
    InBounds (delinearize shape place) shape := by
  induction shape generalizing place with
  | nil => exact .nil
  | cons size shape ih =>
    rw [List.prod_cons] at h
    have hpos : 0 < shape.prod := Nat.pos_of_ne_zero fun hzero => by simp [hzero] at h
    exact .cons ((Nat.div_lt_iff_lt_mul hpos).mpr h) (ih (Nat.mod_lt _ hpos))

/-! ### Collapsing -/

/-- The shapes of the groups. -/
def groupShapes (groups : List (List Nat)) (shape : List Nat) : List (List Nat) :=
  groups.map fun group => gather group shape

/-- `tensor.collapse_shape`: each group becomes one dimension. -/
def collapsed (groups : List (List Nat)) (t : Tensor V) : Tensor V where
  shape := (groupShapes groups t.shape).map List.prod
  elem q := t.elem (List.zipWith delinearize (groupShapes groups t.shape) q).flatten

/-- The groups are all dimensions in their order. -/
theorem groupShapes_flatten {groups : List (List Nat)} {shape : List Nat}
    (h : groups.flatten = List.range shape.length) : (groupShapes groups shape).flatten = shape := by
  have hgather : (groupShapes groups shape).flatten = gather groups.flatten shape := by
    rw [groupShapes, gather, List.map_flatten]
    rfl
  rw [hgather, h, gather]
  refine List.ext_getElem (by simp) fun i _ hi => ?_
  rw [List.getElem_map, List.getElem_range, List.getD_eq_getElem _ _ hi]

/-- An index of several shapes is one of each. -/
theorem exists_split {shapes : List (List Nat)} {p : List Nat} (h : InBounds p shapes.flatten) :
    ∃ ps : List (List Nat), ps.flatten = p ∧ List.Forall₂ InBounds ps shapes := by
  induction shapes generalizing p with
  | nil =>
    cases h
    exact ⟨[], rfl, .nil⟩
  | cons shape shapes ih =>
    have hfirst := List.forall₂_take shape.length h
    have hrest := List.forall₂_drop shape.length h
    rw [List.flatten_cons, List.take_left] at hfirst
    rw [List.flatten_cons, List.drop_left] at hrest
    obtain ⟨ps, hps, hall⟩ := ih hrest
    exact ⟨p.take shape.length :: ps, by rw [List.flatten_cons, hps, List.take_append_drop], .cons hfirst hall⟩

theorem flatten_inBounds {ps shapes : List (List Nat)} (h : List.Forall₂ InBounds ps shapes) :
    InBounds ps.flatten shapes.flatten := by
  induction h with
  | nil => exact .nil
  | cons hp _ ih => exact List.rel_append hp ih

/-- The places of an index of each shape. -/
theorem places_inBounds {ps shapes : List (List Nat)} (h : List.Forall₂ InBounds ps shapes) :
    InBounds (List.zipWith rowMajor shapes ps) (shapes.map List.prod) ∧
      List.zipWith delinearize shapes (List.zipWith rowMajor shapes ps) = ps := by
  induction h with
  | nil => exact ⟨.nil, rfl⟩
  | cons hp _ ih =>
    refine ⟨.cons (rowMajor_lt hp) ih.1, ?_⟩
    rw [List.zipWith_cons_cons, List.zipWith_cons_cons, delinearize_rowMajor hp, ih.2]

theorem delinearize_all {shapes : List (List Nat)} {q : List Nat} (h : InBounds q (shapes.map List.prod)) :
    List.Forall₂ InBounds (List.zipWith delinearize shapes q) shapes := by
  induction shapes generalizing q with
  | nil => exact .nil
  | cons shape shapes ih =>
    cases h with
    | cons hplace hq => exact .cons (delinearize_inBounds hplace) (ih hq)

/-- **Nothing is lost when dimensions are collapsed.** -/
theorem collapsed_same_iff {groups : List (List Nat)} {s t : Tensor V} (hshape : s.shape = t.shape)
    (h : groups.flatten = List.range s.shape.length) :
    Same (collapsed groups s) (collapsed groups t) ↔ Same s t := by
  have hflatten := groupShapes_flatten h
  constructor
  · intro hsame
    refine ⟨hshape, fun p hp => ?_⟩
    rw [← hflatten] at hp
    obtain ⟨ps, rfl, hps⟩ := exists_split hp
    obtain ⟨hplaces, hback⟩ := places_inBounds hps
    have helem := hsame.elem _ hplaces
    simp only [collapsed, ← hshape, hback] at helem
    exact helem
  · intro hsame
    refine ⟨by simp only [collapsed, hshape], fun q hq => ?_⟩
    have hp := flatten_inBounds (delinearize_all hq)
    rw [hflatten] at hp
    simp only [collapsed, ← hshape]
    exact hsame.elem _ hp

end IreeRocket.Linalg
