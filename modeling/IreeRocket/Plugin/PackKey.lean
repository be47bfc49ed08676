import IreeRocket.Lib.Delimited
import IreeRocket.Plugin.PackWeights

/-!
# The memoization key of a packed global

A packed global is reused under its source's name and a text that spells the request. Symbol names are
arbitrary, so the key is read from the right: its last parts contain no bar, and each part determines
the numbers in it (`globalKey_inj`). A matmul's key leaves out the weight zero point, which no matmul
coefficient depends on.
-/

namespace IreeRocket.Plugin

open Conv

/-! ### The key determines the coefficients -/

namespace PackDesc

open Delimited

/-- The extents of a convolution, as its key spells them. -/
def extents (dims : ConvDims) : List Char :=
  (toString dims.width).toList ++ 'x' :: ((toString dims.height).toList ++
    'x' :: ((toString dims.cin).toList ++ ['-'] ++ '>' :: (toString dims.cout).toList))

def kernelPart (dims : ConvDims) : List Char :=
  'k' :: ((toString dims.kh).toList ++ 'x' :: (toString dims.kw).toList)

/-- The parts of a key, from the last. -/
def parts : PackDesc → List (List Char)
  | conv precision dims depthwise weightZeroPoint =>
    ('z' :: 'p' :: (toString weightZeroPoint).toList) :: ('s' :: (toString dims.stride).toList) ::
      kernelPart dims :: extents dims ::
        (if depthwise then [['d', 'w'], (toString precision).toList, "conv2d".toList]
        else [(toString precision).toList, "conv2d".toList])
  | matmul precision m k n _ =>
    [(toString m).toList ++ 'x' :: ((toString k).toList ++ 'x' :: (toString n).toList),
      (toString precision).toList, "matmul".toList]

theorem globalKey_toList (name : String) (desc : PackDesc) :
    (Module.globalKey name desc).toList = joined '|' name.toList desc.parts := by
  have hbar : "|".toList = ['|'] := by decide
  have hx : "x".toList = ['x'] := by decide
  cases desc with
  | conv precision dims depthwise weightZeroPoint =>
    have hconv : "conv2d|".toList = "conv2d".toList ++ ['|'] := by decide
    have hdw : "dw|".toList = ['d', 'w', '|'] := by decide
    have hnone : "".toList = [] := by decide
    have harrow : "->".toList = ['-', '>'] := by decide
    have hk : "|k".toList = ['|', 'k'] := by decide
    have hs : "|s".toList = ['|', 's'] := by decide
    have hzp : "|zp".toList = ['|', 'z', 'p'] := by decide
    unfold Module.globalKey key parts extents kernelPart
    dsimp only
    cases depthwise <;>
      simp only [String.toList_append, hbar, hx, hconv, hdw, hnone, harrow, hk, hs, hzp, joined,
        List.append_assoc, List.cons_append, List.nil_append, if_true, if_false, Bool.false_eq_true]
  | matmul precision m k n weightZeroPoint =>
    have hmatmul : "matmul|".toList = "matmul".toList ++ ['|'] := by decide
    unfold Module.globalKey key parts
    dsimp only
    simp only [String.toList_append, hbar, hx, hmatmul, joined, List.append_assoc, List.cons_append,
      List.nil_append]

/-- No part of a key contains a bar. -/
theorem bar_notMem (desc : PackDesc) : ∀ part ∈ desc.parts, '|' ∉ part := by
  have hint : ∀ i : Int, '|' ∉ i.repr.toList := notMem_int (by decide) (by decide)
  have hnat : ∀ n : Nat, '|' ∉ (toString n).toList := notMem_nat (by decide)
  intro part hpart
  cases desc with
  | conv precision dims depthwise weightZeroPoint =>
    have hconv : '|' ∉ "conv2d".toList := by decide
    have hbare : part ∈ [(toString precision).toList, "conv2d".toList] → '|' ∉ part := by
      intro h
      rcases List.mem_cons.mp h with rfl | h
      · exact hnat _
      · rw [List.mem_singleton.mp h]
        exact hconv
    unfold parts extents kernelPart at hpart
    simp only [List.mem_cons] at hpart
    rcases hpart with rfl | rfl | rfl | rfl | hpart
    · simp [hint]
    · simp [hint]
    · simp [hint]
    · simp [hint]
    · cases depthwise with
      | false => exact hbare hpart
      | true =>
        rcases List.mem_cons.mp hpart with rfl | hpart
        · decide
        · exact hbare hpart
  | matmul precision m k n weightZeroPoint =>
    have hmatmul : '|' ∉ "matmul".toList := by decide
    unfold parts at hpart
    rcases List.mem_cons.mp hpart with rfl | hpart
    · simp [hint]
    · rcases List.mem_cons.mp hpart with rfl | hpart
      · exact hnat _
      · rw [List.mem_singleton.mp hpart]
        exact hmatmul

theorem extents_inj {dims dims' : ConvDims} (h : extents dims = extents dims') :
    dims.width = dims'.width ∧ dims.height = dims'.height ∧ dims.cin = dims'.cin ∧
      dims.cout = dims'.cout := by
  have hx : ∀ i : Int, 'x' ∉ (toString i).toList := notMem_int (by decide) (by decide)
  have harrow : ∀ i : Int, '>' ∉ (toString i).toList ++ ['-'] := by
    intro i
    have hint : '>' ∉ i.repr.toList := notMem_int (by decide) (by decide) i
    simp [hint]
  obtain ⟨hwidth, h⟩ := split_first (hx _) (hx _) h
  obtain ⟨hheight, h⟩ := split_first (hx _) (hx _) h
  obtain ⟨hcin, hcout⟩ := split_first (harrow _) (harrow _) h
  exact ⟨int_inj hwidth, int_inj hheight, int_inj (List.append_inj_left' hcin rfl), int_inj hcout⟩

/-- Requests with the same coefficients: a weight zero point enters a convolution's only. -/
def SameCoefficients : PackDesc → PackDesc → Prop
  | conv precision dims depthwise weightZeroPoint, conv precision' dims' depthwise' weightZeroPoint' =>
    precision = precision' ∧ dims = dims' ∧ depthwise = depthwise' ∧ weightZeroPoint = weightZeroPoint'
  | matmul precision m k n _, matmul precision' m' k' n' _ =>
    precision = precision' ∧ m = m' ∧ k = k' ∧ n = n'
  | _, _ => False

/-- The first two parts of a key after its extents. -/
theorem tail_inj {name name' : List Char} {precision precision' : Nat} {depthwise depthwise' : Bool}
    (h : joined '|' name (if depthwise then [['d', 'w'], (toString precision).toList, "conv2d".toList]
        else [(toString precision).toList, "conv2d".toList]) =
      joined '|' name' (if depthwise' then [['d', 'w'], (toString precision').toList, "conv2d".toList]
        else [(toString precision').toList, "conv2d".toList])) :
    depthwise = depthwise' ∧ precision = precision' ∧ name = name' := by
  have hnat : ∀ n : Nat, '|' ∉ (toString n).toList := notMem_nat (by decide)
  have hconv : '|' ∉ "conv2d".toList := by decide
  have hd : ∀ n : Nat, ['d', 'w'] ≠ (toString n).toList := by
    intro n heq
    have hn := notMem_nat (d := 'd') (by decide) n
    rw [← heq] at hn
    exact hn List.mem_cons_self
  have hbare : ∀ {name name' : List Char},
      joined '|' name [(toString precision).toList, "conv2d".toList] =
        joined '|' name' [(toString precision').toList, "conv2d".toList] →
      precision = precision' ∧ name = name' := by
    intro name name' h
    obtain ⟨hprecision, h⟩ := joined_cons (hnat _) (hnat _) h
    obtain ⟨-, h⟩ := joined_cons hconv hconv h
    exact ⟨nat_inj hprecision, h⟩
  cases depthwise with
  | false =>
    cases depthwise' with
    | false => exact ⟨rfl, hbare h⟩
    | true => exact absurd (joined_cons (hnat _) (by decide) h).1.symm (hd _)
  | true =>
    cases depthwise' with
    | false => exact absurd (joined_cons (by decide) (hnat _) h).1 (hd _)
    | true => exact ⟨rfl, hbare (joined_cons (by decide) (by decide) h).2⟩

theorem zp_ne_extents (i m k n : Int) : 'z' :: 'p' :: (toString i).toList ≠
    (toString m).toList ++ 'x' :: ((toString k).toList ++ 'x' :: (toString n).toList) := by
  have hz : ∀ i : Int, 'z' ∉ i.repr.toList := notMem_int (by decide) (by decide)
  intro h
  have hmem : 'z' ∈ (toString m).toList ++ 'x' :: ((toString k).toList ++ 'x' :: (toString n).toList) :=
    h ▸ List.mem_cons_self
  simp [hz] at hmem

/-- **The key of a packed global determines the global and the coefficients.** -/
theorem globalKey_inj {name name' : String} {desc desc' : PackDesc}
    (h : Module.globalKey name desc = Module.globalKey name' desc') :
    name = name' ∧ desc.SameCoefficients desc' := by
  have hbar := bar_notMem desc
  have hbar' := bar_notMem desc'
  replace h := congrArg String.toList h
  rw [globalKey_toList, globalKey_toList] at h
  cases desc with
  | conv precision dims depthwise weightZeroPoint =>
    cases desc' with
    | conv precision' dims' depthwise' weightZeroPoint' =>
      simp only [parts, List.forall_mem_cons] at hbar hbar'
      obtain ⟨hzp, hs, hk, he, -⟩ := hbar
      obtain ⟨hzp', hs', hk', he', -⟩ := hbar'
      obtain ⟨hzero, h⟩ := joined_cons hzp hzp' h
      obtain ⟨hstride, h⟩ := joined_cons hs hs' h
      obtain ⟨hkernel, h⟩ := joined_cons hk hk' h
      obtain ⟨hextents, h⟩ := joined_cons he he' h
      obtain ⟨hdepthwise, hprecision, hname⟩ := tail_inj h
      have hx : ∀ i : Int, 'x' ∉ (toString i).toList := notMem_int (by decide) (by decide)
      obtain ⟨hkh, hkw⟩ := split_first (hx _) (hx _) (List.cons.inj hkernel).2
      obtain ⟨hwidth, hheight, hcin, hcout⟩ := extents_inj hextents
      refine ⟨String.toList_injective hname, hprecision, ?_, hdepthwise,
        int_inj (List.cons.inj (List.cons.inj hzero).2).2⟩
      cases dims
      cases dims'
      simp only [ConvDims.mk.injEq]
      exact ⟨hwidth, hheight, hcin, hcout, int_inj hkw, int_inj hkh, int_inj (List.cons.inj hstride).2⟩
    | matmul precision' m k n weightZeroPoint' =>
      exact absurd (joined_cons (hbar _ List.mem_cons_self) (hbar' _ List.mem_cons_self) h).1
        (zp_ne_extents _ _ _ _)
  | matmul precision m k n weightZeroPoint =>
    cases desc' with
    | conv precision' dims' depthwise' weightZeroPoint' =>
      exact absurd (joined_cons (hbar _ List.mem_cons_self) (hbar' _ List.mem_cons_self) h).1.symm
        (zp_ne_extents _ _ _ _)
    | matmul precision' m' k' n' weightZeroPoint' =>
      simp only [parts, List.forall_mem_cons] at hbar hbar'
      obtain ⟨he, hp, hm, -⟩ := hbar
      obtain ⟨he', hp', hm', -⟩ := hbar'
      obtain ⟨hextents, h⟩ := joined_cons he he' h
      obtain ⟨hprecision, h⟩ := joined_cons hp hp' h
      obtain ⟨-, hname⟩ := joined_cons hm hm' h
      have hx : ∀ i : Int, 'x' ∉ (toString i).toList := notMem_int (by decide) (by decide)
      obtain ⟨hmeq, hrest⟩ := split_first (hx _) (hx _) hextents
      obtain ⟨hkeq, hneq⟩ := split_first (hx _) (hx _) hrest
      exact ⟨String.toList_injective hname, nat_inj hprecision, int_inj hmeq, int_inj hkeq, int_inj hneq⟩

end PackDesc

end IreeRocket.Plugin
