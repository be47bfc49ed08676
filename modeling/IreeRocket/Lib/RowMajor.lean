import IreeRocket.Lib.Padding
import IreeRocket.Lib.Reshapes

/-!
# Tensors laid out in row-major order

A tensor that gives its elements by their indices is laid out as the list of them, which says as much
(`layOut_eq_iff`, `layOut_indexed`). Padding it is padding the list (`layOut_padded`), and tensors that
regroup each other's dimensions are laid out alike (`layOut_grouped`).
-/

namespace IreeRocket.RowMajor

open Linalg (Same InBounds Inside Grouped gather groupShapes groupShapes_flatten rowMajor rowMajor_cons
  rowMajor_lt delinearize delinearize_rowMajor delinearize_inBounds paddedShape padded sourceIndex)

variable {V : Type}

def layOut (t : Linalg.Tensor V) : Tensor V where
  shape := t.shape
  elements := (List.range t.shape.prod).map fun k => t.elem (delinearize t.shape k)
  whole := by rw [List.length_map, List.length_range]

variable {shape : List Nat}

theorem rowMajor_delinearize {k : Nat} (h : k < shape.prod) :
    rowMajor shape (delinearize shape k) = k := by
  induction shape generalizing k with
  | nil =>
    rw [List.prod_nil] at h
    obtain rfl := Nat.lt_one_iff.mp h
    rfl
  | cons n shape ih =>
    have hbounds := delinearize_inBounds h
    have hpos : 0 < shape.prod := by
      rw [List.prod_cons] at h
      exact Nat.pos_of_ne_zero fun hzero => by simp [hzero] at h
    cases hbounds with
    | cons _ hrest =>
      rw [delinearize, rowMajor_cons _ _ _ _ hrest.length_eq, ih (Nat.mod_lt _ hpos)]
      exact Nat.div_add_mod' k shape.prod

/-- **A layout determines the elements.** -/
theorem layOut_eq_iff {s t : Linalg.Tensor V} : layOut s = layOut t ↔ Same s t := by
  constructor
  · intro h
    have hshape : s.shape = t.shape := congrArg Tensor.shape h
    refine ⟨hshape, fun p hp => ?_⟩
    have hplace := rowMajor_lt hp
    have helem := congrArg (fun elements => elements[rowMajor s.shape p]?) (congrArg Tensor.elements h)
    simp only [layOut, List.getElem?_map, ← hshape, List.getElem?_range hplace, Option.map_some,
      delinearize_rowMajor hp, Option.some.injEq] at helem
    exact helem
  · intro h
    refine Tensor.ext h.shape ?_
    unfold layOut
    dsimp only
    rw [← h.shape]
    exact List.map_congr_left fun k hk => h.elem _ (delinearize_inBounds (List.mem_range.mp hk))

/-- The tensor that has a layout. -/
def Tensor.indexed (x : Tensor V) (default : V) : Linalg.Tensor V where
  shape := x.shape
  elem p := x.elements.getD (rowMajor x.shape p) default

theorem layOut_indexed (x : Tensor V) (default : V) : layOut (x.indexed default) = x := by
  refine Tensor.ext rfl (List.ext_getElem ?_ fun k hk hk' => ?_)
  · rw [(layOut _).whole, x.whole]
    rfl
  · have hlt : k < x.shape.prod := x.whole ▸ hk'
    simp only [layOut, Tensor.indexed, List.getElem_map, List.getElem_range]
    rw [rowMajor_delinearize hlt, List.getD_eq_getElem _ _ hk']

/-! ### Padding -/

variable {low high : List Int}

theorem padded_axesOf (hlow : low.length = shape.length) (hhigh : high.length = shape.length) :
    (axesOf low shape high).map Axis.padded = paddedShape low high shape ∧
      (axesOf low shape high).map Axis.extent = shape := by
  induction shape generalizing low high with
  | nil =>
    cases low <;> cases high <;> exact ⟨rfl, rfl⟩
  | cons n shape ih =>
    cases low with
    | nil => cases hlow
    | cons l low =>
      cases high with
      | nil => cases hhigh
      | cons h high =>
        obtain ⟨hpadded, hextents⟩ := ih (Nat.succ.inj hlow) (Nat.succ.inj hhigh)
        exact ⟨congrArg _ hpadded, congrArg _ hextents⟩

/-- The place of a padded element is that of its index. -/
theorem sourcePlace_delinearize (hlow : low.length = shape.length) (hhigh : high.length = shape.length)
    (k : Nat) : sourcePlace (axesOf low shape high) k =
      if Inside (sourceIndex low (delinearize (paddedShape low high shape) k)) shape then
        some (rowMajor shape ((sourceIndex low (delinearize (paddedShape low high shape) k)).map Int.toNat))
      else none := by
  induction shape generalizing low high k with
  | nil =>
    obtain rfl := List.length_eq_zero_iff.mp hlow
    obtain rfl := List.length_eq_zero_iff.mp hhigh
    rfl
  | cons n shape ih =>
    cases low with
    | nil => cases hlow
    | cons l low =>
      cases high with
      | nil => cases hhigh
      | cons h high =>
        have hlow' := Nat.succ.inj hlow
        have hhigh' := Nat.succ.inj hhigh
        obtain ⟨hpadded, hextents⟩ := padded_axesOf hlow' hhigh'
        have hcount : paddedCount (axesOf low shape high) = (paddedShape low high shape).prod := by
          rw [paddedCount, hpadded]
        have hsource : sourceCount (axesOf low shape high) = shape.prod := by
          rw [sourceCount, hextents]
        have hindex : sourceIndex (l :: low)
            (delinearize (paddedShape (l :: low) (h :: high) (n :: shape)) k) =
            ((k / (paddedShape low high shape).prod : Nat) - l) ::
              sourceIndex low (delinearize (paddedShape low high shape)
                (k % (paddedShape low high shape).prod)) := rfl
        rw [axesOf, sourcePlace, hcount, hsource, ih hlow' hhigh', hindex]
        generalize sourceIndex low _ = rest
        generalize ((k / (paddedShape low high shape).prod : Nat) - l : Int) = i
        dsimp only
        by_cases hi : 0 ≤ i ∧ i < n
        · by_cases hrest : Inside rest shape
          · have hinside : Inside (i :: rest) (n :: shape) := .cons hi hrest
            rw [if_pos hi, if_pos hrest, if_pos hinside, List.map_cons, rowMajor_cons, Option.map_some]
            rw [List.length_map]
            exact hrest.length_eq
          · have hinside : ¬ Inside (i :: rest) (n :: shape) := fun h => by
              cases h with
              | cons _ h => exact hrest h
            rw [if_pos hi, if_neg hrest, if_neg hinside, Option.map_none]
        · have hinside : ¬ Inside (i :: rest) (n :: shape) := fun h => by
            cases h with
            | cons h _ => exact hi h
          rw [if_neg hi, if_neg hinside]

/-- **Padding a tensor is padding its elements in row-major order.** -/
theorem layOut_padded {t : Linalg.Tensor V} (hlow : low.length = t.shape.length)
    (hhigh : high.length = t.shape.length) (fill : V) :
    layOut (padded low high (fun _ => fill) t) = (layOut t).pad low high fill := by
  obtain ⟨hpadded, -⟩ := padded_axesOf hlow hhigh
  refine Tensor.ext hpadded.symm ?_
  show (List.range (paddedShape low high t.shape).prod).map _ =
    (List.range (paddedCount (axesOf low t.shape high))).map _
  rw [paddedCount, hpadded]
  refine List.map_congr_left fun k hk => ?_
  show (if Inside (sourceIndex low (delinearize (paddedShape low high t.shape) k)) t.shape then _ else fill) =
    ((sourcePlace (axesOf low t.shape high) k).bind fun j => (layOut t).elements[j]?).getD fill
  rw [sourcePlace_delinearize hlow hhigh]
  by_cases hinside : Inside (sourceIndex low (delinearize (paddedShape low high t.shape) k)) t.shape
  · have hbounds := Linalg.inBounds_of_inside hinside
    rw [if_pos hinside, if_pos hinside, Option.bind_some, layOut, List.getElem?_map,
      List.getElem?_range (rowMajor_lt hbounds), Option.map_some, delinearize_rowMajor hbounds]
    rfl
  · rw [if_neg hinside, if_neg hinside]
    rfl

/-! ### Regrouping -/

theorem rowMajor_append {p q s t : List Nat} (h : p.length = s.length) (h' : q.length = t.length) :
    rowMajor (s ++ t) (p ++ q) = rowMajor s p * t.prod + rowMajor t q := by
  induction s generalizing p with
  | nil =>
    obtain rfl := List.length_eq_zero_iff.mp h
    simp [rowMajor]
  | cons n s ih =>
    cases p with
    | nil => cases h
    | cons i p =>
      have hlength := Nat.succ.inj h
      rw [List.cons_append, List.cons_append, rowMajor_cons, rowMajor_cons _ _ _ _ hlength, ih hlength,
        List.prod_append]
      · ring
      · rw [List.length_append, List.length_append, hlength, h']

/-- The place of an index whose entries are places in groups. -/
theorem rowMajor_flatten {ps shapes : List (List Nat)} (h : List.Forall₂ InBounds ps shapes) :
    rowMajor shapes.flatten ps.flatten =
      rowMajor (shapes.map List.prod) (List.zipWith rowMajor shapes ps) := by
  induction h with
  | nil => rfl
  | @cons p shape ps shapes hp hps ih =>
    have hlength : ps.flatten.length = shapes.flatten.length := (Linalg.flatten_inBounds hps).length_eq
    rw [List.flatten_cons, List.flatten_cons, rowMajor_append hp.length_eq hlength, ih, List.map_cons,
      List.zipWith_cons_cons, rowMajor_cons, List.prod_flatten]
    rw [List.length_zipWith, List.length_map, hps.length_eq, Nat.min_self]

/-- The entries of an index in each group. -/
theorem gather_inBounds {p : List Nat} (h : InBounds p shape) {group : List Nat}
    (hgroup : ∀ pick ∈ group, pick < shape.length) : InBounds (gather group p) (gather group shape) := by
  induction group with
  | nil => exact .nil
  | cons pick group ih =>
    have hpick := hgroup pick List.mem_cons_self
    refine .cons ?_ (ih fun pick hmem => hgroup pick (List.mem_cons_of_mem _ hmem))
    dsimp only
    rw [List.getD_eq_getElem _ _ (h.length_eq ▸ hpick), List.getD_eq_getElem _ _ hpick]
    exact List.Forall₂.get h (h.length_eq ▸ hpick) hpick

/-- **Tensors that regroup each other's dimensions are laid out alike.** -/
theorem layOut_grouped {groups : List (List Nat)} {s t : Linalg.Tensor V} (h : Grouped groups s t)
    (hgroups : groups.flatten = List.range s.shape.length) :
    (layOut t).elements = (layOut s).elements := by
  obtain ⟨hshape, helem⟩ := h
  have hflatten := groupShapes_flatten hgroups
  have hcoarse : t.shape = (groupShapes groups s.shape).map List.prod := by
    rw [hshape, groupShapes, List.map_map]
    rfl
  have hprod : t.shape.prod = s.shape.prod := by rw [hcoarse, ← List.prod_flatten, hflatten]
  unfold layOut
  dsimp only
  rw [hprod]
  refine List.map_congr_left fun k hk => ?_
  have hlt := List.mem_range.mp hk
  have hbounds := delinearize_inBounds hlt
  rw [helem _ hbounds]
  congr 1
  have hpieces : List.Forall₂ InBounds (groups.map fun group => gather group (delinearize s.shape k))
      (groupShapes groups s.shape) := by
    refine List.forall₂_map_left_iff.mpr (List.forall₂_map_right_iff.mpr ?_)
    refine List.forall₂_same.mpr fun group hgroup => gather_inBounds hbounds fun pick hpick => ?_
    have hmem : pick ∈ groups.flatten := List.mem_flatten.mpr ⟨group, hgroup, hpick⟩
    rw [hgroups] at hmem
    exact List.mem_range.mp hmem
  have hindex : (groups.map fun group => gather group (delinearize s.shape k)).flatten =
      delinearize s.shape k := groupShapes_flatten (by rw [hgroups, hbounds.length_eq])
  have hplace := rowMajor_flatten hpieces
  obtain ⟨hplaces, -⟩ := Linalg.places_inBounds hpieces
  rw [hindex, hflatten, rowMajor_delinearize hlt, ← hcoarse] at hplace
  rw [← hcoarse] at hplaces
  rw [(congrArg (delinearize t.shape) hplace).trans (delinearize_rowMajor hplaces), groupShapes,
    List.zipWith_map, List.zipWith_self]

/-- **Regrouping is a reshape, both ways.** -/
theorem reshape_grouped {groups : List (List Nat)} {s t : Linalg.Tensor V} (h : Grouped groups s t)
    (hgroups : groups.flatten = List.range s.shape.length) :
    (layOut s).reshape t.shape = layOut t ∧ (layOut t).reshape s.shape = layOut s := by
  have hlaid := layOut_grouped h hgroups
  have hprod : t.shape.prod = s.shape.prod := by
    rw [h.1, ← groupShapes_flatten hgroups, List.prod_flatten, groupShapes_flatten hgroups, groupShapes,
      List.map_map]
    rfl
  constructor
  · exact Tensor.ext (Tensor.reshape_shape hprod) ((Tensor.reshape_elements _ _).trans hlaid.symm)
  · exact Tensor.ext (Tensor.reshape_shape hprod.symm) ((Tensor.reshape_elements _ _).trans hlaid)

end IreeRocket.RowMajor
