import Mathlib.Data.List.Basic
import Mathlib.Tactic.Common

/-!
# Integers, floats and reductions

The elements of a tensor are integers of a width or floats of a format. An operand of a multiplication
is converted to the type of the accumulator first, with or without regard to its sign. The float
arithmetic is a parameter, of which the conversions and what IEEE 754 says of zeros are known.

A reduction adds its terms to the accumulator in some order. Its results are those of all orders, so
two reductions have the same results if their terms are the same up to order (`Reduces.perm`). Where the
two conversions give some product two values, there are terms and an accumulator with which no result is
common (`products_separated`).
-/

namespace IreeRocket.Linalg

/-! ### Reductions -/

section Reduction

variable {α : Type} {add : α → α → α} {init : α} {terms : List α}

/-- A result of adding the terms to the accumulator, in any order. -/
def Reduces (add : α → α → α) (init : α) (terms : List α) (result : α) : Prop :=
  ∃ order : List α, order.Perm terms ∧ result = order.foldl add init

theorem Reduces.inOrder (add : α → α → α) (init : α) (terms : List α) :
    Reduces add init terms (terms.foldl add init) := ⟨terms, .refl terms, rfl⟩

/-- **The order of the terms is not part of a reduction.** -/
theorem Reduces.perm {terms' : List α} (h : terms.Perm terms') {result : α} :
    Reduces add init terms result ↔ Reduces add init terms' result :=
  exists_congr fun _ => and_congr_left fun _ => ⟨fun horder => horder.trans h, fun horder => horder.trans h.symm⟩

/-- An order of one term among copies of another. -/
theorem perm_replicate_cons {order : List α} {p z : α} {j : Nat} (h : order.Perm (p :: List.replicate j z)) :
    ∃ before after, order = List.replicate before z ++ p :: List.replicate after z := by
  obtain ⟨left, right, rfl⟩ := List.append_of_mem (h.mem_iff.mpr List.mem_cons_self)
  have hrest : (left ++ right).Perm (List.replicate j z) :=
    (List.perm_middle.symm.trans h).cons_inv
  have hall : ∀ c ∈ left ++ right, c = z := fun c hc => List.eq_of_mem_replicate (hrest.mem_iff.mp hc)
  refine ⟨left.length, right.length, ?_⟩
  rw [← List.eq_replicate_iff.mpr ⟨rfl, fun c hc => hall c (List.mem_append_left _ hc)⟩,
    ← List.eq_replicate_iff.mpr ⟨rfl, fun c hc => hall c (List.mem_append_right _ hc)⟩]

theorem foldl_replicate_self {v z : α} (h : add v z = v) (j : Nat) :
    (List.replicate j z).foldl add v = v := by
  induction j with
  | zero => rfl
  | succ j ih => rw [List.replicate_succ, List.foldl_cons, h, ih]

/-- **One term among copies of a neutral one** has one result. -/
theorem reduces_among {p z s result : α} {j : Nat} (hzz : add z z = z) (hzp : add z p = s)
    (hsz : add s z = s) (h : Reduces add z (p :: List.replicate j z) result) : result = s := by
  obtain ⟨order, horder, rfl⟩ := h
  obtain ⟨before, after, rfl⟩ := perm_replicate_cons horder
  rw [List.foldl_append, foldl_replicate_self hzz, List.foldl_cons, hzp, foldl_replicate_self hsz]

/-- Copies of one term have one result. -/
theorem reduces_copies {p s result : α} {j : Nat} (hp : add init p = s) (hsp : add s p = s)
    (h : Reduces add init (p :: List.replicate j p) result) : result = s := by
  obtain ⟨order, horder, rfl⟩ := h
  rw [← List.replicate_succ] at horder
  rw [List.perm_replicate.mp horder, List.replicate_succ, List.foldl_cons, hp, foldl_replicate_self hsp]

end Reduction

/-! ### Elements -/

/-- Float arithmetic of any formats, with one NaN each: `arith`'s operations, and IEEE 754 on zeros. -/
structure Floats where
  Format : Type
  Value : Format → Type
  add : {f : Format} → Value f → Value f → Value f
  sub : {f : Format} → Value f → Value f → Value f
  mul : {f : Format} → Value f → Value f → Value f
  convert : {f : Format} → (g : Format) → Value f → Value g
  ofSigned : (f : Format) → {w : Nat} → BitVec w → Value f
  ofUnsigned : (f : Format) → {w : Nat} → BitVec w → Value f
  toSigned : {f : Format} → (w : Nat) → Value f → BitVec w
  toUnsigned : {f : Format} → (w : Nat) → Value f → BitVec w
  posZero : (f : Format) → Value f
  negZero : (f : Format) → Value f
  zeros_ne : ∀ f, posZero f ≠ negZero f
  negZero_add : ∀ {f} (v : Value f), add (negZero f) v = v
  posZero_add : ∀ {f} {v : Value f}, v ≠ negZero f → add (posZero f) v = v
  add_posZero : ∀ {f} {v : Value f}, v ≠ negZero f → add v (posZero f) = v
  posZero_add_negZero : ∀ f, add (posZero f) (negZero f) = posZero f
  posZero_mul : ∀ f, mul (posZero f) (posZero f) = posZero f
  convert_posZero : ∀ f g, convert g (posZero f) = posZero g
  ofSigned_zero : ∀ f w, ofSigned f (0 : BitVec w) = posZero f
  ofUnsigned_zero : ∀ f w, ofUnsigned f (0 : BitVec w) = posZero f
  toSigned_posZero : ∀ f w, toSigned w (posZero f) = 0
  toUnsigned_posZero : ∀ f w, toUnsigned w (posZero f) = 0

inductive ElementType (F : Floats)
  | integer (width : Nat)
  | float (format : F.Format)

def Scalar (F : Floats) : ElementType F → Type
  | .integer width => BitVec width
  | .float format => F.Value format

/-- How an operand is promoted to the accumulator's type. -/
inductive TypeFn
  | castSigned
  | castUnsigned
deriving DecidableEq

variable {F : Floats}

def convert (fn : TypeFn) : (s t : ElementType F) → Scalar F s → Scalar F t
  | .integer _, .integer w, x =>
    match fn with
    | .castSigned => BitVec.signExtend w x
    | .castUnsigned => BitVec.setWidth w x
  | .integer _, .float f, x =>
    match fn with
    | .castSigned => F.ofSigned f x
    | .castUnsigned => F.ofUnsigned f x
  | .float _, .integer w, x =>
    match fn with
    | .castSigned => F.toSigned w x
    | .castUnsigned => F.toUnsigned w x
  | .float _, .float g, x => F.convert g x

/-- Booleans are added by `or`. -/
def integerAdd {w : Nat} (x y : BitVec w) : BitVec w := if w = 1 then x ||| y else x + y

def add : (t : ElementType F) → Scalar F t → Scalar F t → Scalar F t
  | .integer _, x, y => integerAdd x y
  | .float _, x, y => F.add x y

def mul : (t : ElementType F) → Scalar F t → Scalar F t → Scalar F t
  | .integer _, x, y => BitVec.mul x y
  | .float _, x, y => F.mul x y

def sub : (t : ElementType F) → Scalar F t → Scalar F t → Scalar F t
  | .integer _, x, y => BitVec.sub x y
  | .float _, x, y => F.sub x y

def zero : (t : ElementType F) → Scalar F t
  | .integer width => BitVec.zero width
  | .float f => F.posZero f

/-- **Integers have one sum**, whatever the order. -/
theorem integer_reduces_iff {w : Nat} {init result : Scalar F (.integer w)} {terms : List (Scalar F (.integer w))} :
    Reduces (add (.integer w)) init terms result ↔ result = terms.foldl (add (.integer w)) init := by
  have hcomm : ∀ x y z : BitVec w, integerAdd (integerAdd x y) z = integerAdd (integerAdd x z) y := fun x y z => by
    unfold integerAdd
    split_ifs
    · rw [BitVec.or_assoc, BitVec.or_comm y z, BitVec.or_assoc]
    · rw [BitVec.add_assoc, BitVec.add_comm y z, BitVec.add_assoc]
  constructor
  · rintro ⟨order, horder, rfl⟩
    exact horder.foldl_eq' (fun x _ y _ z => hcomm z x y) init
  · rintro rfl
    exact Reduces.inOrder _ _ _

theorem convert_zero (fn : TypeFn) (s t : ElementType F) : convert fn s t (zero s) = zero t := by
  cases s with
  | integer w =>
    cases t with
    | integer v =>
      cases fn with
      | castSigned =>
        have hzero : BitVec.signExtend v (0#w) = 0#v := by simp [BitVec.signExtend]
        exact hzero
      | castUnsigned => exact BitVec.setWidth_zero v w
    | float f =>
      cases fn with
      | castSigned => exact F.ofSigned_zero f w
      | castUnsigned => exact F.ofUnsigned_zero f w
  | float f =>
    cases t with
    | integer v =>
      cases fn with
      | castSigned => exact F.toSigned_posZero f v
      | castUnsigned => exact F.toUnsigned_posZero f v
    | float g => exact F.convert_posZero f g

theorem zero_mul (t : ElementType F) : mul t (zero t) (zero t) = zero t := by
  cases t with
  | integer w => exact BitVec.zero_mul
  | float f => exact F.posZero_mul f

/-! ### When the sign does not matter -/

/-- The product of two operands in the accumulator's type. -/
def product (fn : TypeFn) (a b c : ElementType F) (x : Scalar F a) (y : Scalar F b) : Scalar F c :=
  mul c (convert fn a c x) (convert fn b c y)

theorem product_zero (fn : TypeFn) (a b c : ElementType F) : product fn a b c (zero a) (zero b) = zero c := by
  rw [product, convert_zero, convert_zero, zero_mul]

/-- Both conversions give the same products. -/
def SameProducts (a b c : ElementType F) : Prop :=
  ∀ x y, product .castUnsigned a b c x y = product .castSigned a b c x y

/-- No result is common to a term and copies of another under the one reading and under the other. -/
def Separated (c : ElementType F) (p p' q q' : Scalar F c) : Prop :=
  ∀ j : Nat, ∃ init, ∀ r, Reduces (add c) init (p :: List.replicate j p') r →
    ¬ Reduces (add c) init (q :: List.replicate j q') r

theorem integerAdd_zero {w : Nat} (p : BitVec w) : integerAdd (0#w) p = p ∧ integerAdd p (0#w) = p := by
  unfold integerAdd
  split_ifs
  · exact ⟨BitVec.zero_or, BitVec.or_zero⟩
  · exact ⟨BitVec.zero_add p, BitVec.add_zero p⟩

/-- Integers differ behind zeros. -/
theorem integer_separated {w : Nat} {p q : Scalar F (.integer w)} (h : p ≠ q) :
    Separated (.integer w) p (zero _) q (zero _) := by
  refine fun j => ⟨zero _, fun r hp hq => h ?_⟩
  have hone : ∀ {v r : BitVec w}, Reduces integerAdd (0#w) (v :: List.replicate j (0#w)) r → r = v :=
    fun {v} _ hr => reduces_among (integerAdd_zero _).1 (integerAdd_zero v).1 (integerAdd_zero v).2 hr
  exact (hone hp).symm.trans (hone hq)

/-- What is left of a float once a zero has been added. -/
theorem float_among {f : F.Format} {p : F.Value f} {j : Nat} {r : F.Value f}
    (h : Reduces F.add (F.posZero f) (p :: List.replicate j (F.posZero f)) r) :
    (p ≠ F.negZero f ∧ r = p) ∨ (p = F.negZero f ∧ r = F.posZero f) := by
  have hzz : F.add (F.posZero f) (F.posZero f) = F.posZero f := F.add_posZero (F.zeros_ne f)
  by_cases hp : p = F.negZero f
  · subst hp
    exact .inr ⟨rfl, reduces_among hzz (F.posZero_add_negZero f) hzz h⟩
  · exact .inl ⟨hp, reduces_among hzz (F.posZero_add hp) (F.add_posZero hp) h⟩

/-- Floats that are not the two zeros differ behind zeros. -/
theorem float_separated {f : F.Format} {p q : F.Value f} (h : p ≠ q)
    (hzeros : ¬ (p = F.posZero f ∧ q = F.negZero f)) (hzeros' : ¬ (p = F.negZero f ∧ q = F.posZero f)) :
    Separated (F := F) (.float f) p (F.posZero f) q (F.posZero f) := by
  refine fun j => ⟨F.posZero f, fun r hp hq => ?_⟩
  rcases float_among hp with ⟨-, hp⟩ | ⟨hneg, hp⟩
  · rcases float_among hq with ⟨-, hq⟩ | ⟨hneg, hq⟩
    · exact h (hp.symm.trans hq)
    · exact hzeros ⟨hp.symm.trans hq, hneg⟩
  · rcases float_among hq with ⟨-, hq⟩ | ⟨hneg', -⟩
    · exact hzeros' ⟨hneg, hq.symm.trans hp⟩
    · exact h (hneg.trans hneg'.symm)

/-- The two zeros differ among their copies. -/
theorem zeros_separated (f : F.Format) :
    Separated (F := F) (.float f) (F.posZero f) (F.posZero f) (F.negZero f) (F.negZero f) ∧
      Separated (F := F) (.float f) (F.negZero f) (F.negZero f) (F.posZero f) (F.posZero f) := by
  have hpos : ∀ {j : Nat} {r : F.Value f}, Reduces F.add (F.negZero f)
      (F.posZero f :: List.replicate j (F.posZero f)) r → r = F.posZero f := fun h =>
    reduces_copies (F.negZero_add _) (F.add_posZero (F.zeros_ne f)) h
  have hneg : ∀ {j : Nat} {r : F.Value f}, Reduces F.add (F.negZero f)
      (F.negZero f :: List.replicate j (F.negZero f)) r → r = F.negZero f := fun h =>
    reduces_copies (F.negZero_add _) (F.negZero_add _) h
  exact ⟨fun j => ⟨F.negZero f, fun r hp hq => F.zeros_ne f ((hpos hp).symm.trans (hneg hq))⟩,
    fun j => ⟨F.negZero f, fun r hp hq => F.zeros_ne f ((hpos hq).symm.trans (hneg hp))⟩⟩

/-- **Where a product depends on the conversion, sums with it do**, for some operands of the other terms. -/
theorem products_separated {a b c : ElementType F} (h : ¬ SameProducts a b c) :
    ∃ x y x' y', Separated c (product .castUnsigned a b c x y) (product .castUnsigned a b c x' y')
      (product .castSigned a b c x y) (product .castSigned a b c x' y') := by
  obtain ⟨x, h⟩ := not_forall.mp h
  obtain ⟨y, h⟩ := not_forall.mp h
  cases c with
  | integer w =>
    refine ⟨x, y, zero a, zero b, ?_⟩
    rw [product_zero, product_zero]
    exact integer_separated h
  | float f =>
    by_cases hzeros : product .castUnsigned a b (.float f) x y = F.posZero f ∧
        product .castSigned a b (.float f) x y = F.negZero f
    · refine ⟨x, y, x, y, ?_⟩
      rw [hzeros.1, hzeros.2]
      exact (zeros_separated f).1
    by_cases hzeros' : product .castUnsigned a b (.float f) x y = F.negZero f ∧
        product .castSigned a b (.float f) x y = F.posZero f
    · refine ⟨x, y, x, y, ?_⟩
      rw [hzeros'.1, hzeros'.2]
      exact (zeros_separated f).2
    · refine ⟨x, y, zero a, zero b, ?_⟩
      rw [product_zero, product_zero]
      exact float_separated h hzeros hzeros'

theorem signExtend_allOnes {w : Nat} (hw : 0 < w) (v : Nat) :
    BitVec.signExtend v (BitVec.allOnes w) = BitVec.allOnes v := by
  have hint : (BitVec.allOnes w).toInt = -1 := by simp [BitVec.toInt_allOnes, hw]
  rw [BitVec.signExtend, hint, BitVec.ofInt_neg, ← BitVec.neg_one_eq_allOnes]
  rfl

theorem setWidth_allOnes_ne {w v : Nat} (h : w < v) :
    BitVec.setWidth v (BitVec.allOnes w) ≠ BitVec.allOnes v := fun heq => by
  have hnat := congrArg BitVec.toNat heq
  have hlt : 2 ^ w < 2 ^ v := Nat.pow_lt_pow_right (by omega) h
  have hpos : 0 < 2 ^ w := Nat.two_pow_pos w
  rw [BitVec.toNat_setWidth, BitVec.toNat_allOnes, BitVec.toNat_allOnes, Nat.mod_eq_of_lt (by omega)] at hnat
  omega

/-- One is read as one, but as a boolean that is extended. -/
theorem signExtend_one {w v : Nat} (h : 2 ≤ w ∨ v ≤ w) : BitVec.signExtend v (1#w) = BitVec.setWidth v (1#w) := by
  rcases h with h | h
  · refine BitVec.signExtend_eq_setWidth_of_msb_false ?_
    rw [BitVec.msb_eq_false_iff_two_mul_lt, BitVec.toNat_ofNat, Nat.mod_eq_of_lt (Nat.one_lt_two_pow (by omega))]
    calc 2 * 1 < 2 ^ 2 := by decide
      _ ≤ 2 ^ w := Nat.pow_le_pow_right (by decide) h
  · exact BitVec.signExtend_eq_setWidth_of_le _ h

theorem setWidth_one {w : Nat} (h : 0 < w) (v : Nat) : BitVec.setWidth v (1#w) = 1#v := by
  refine BitVec.eq_of_toNat_eq ?_
  rw [BitVec.toNat_setWidth, BitVec.toNat_ofNat, BitVec.toNat_ofNat,
    Nat.mod_eq_of_lt (Nat.one_lt_two_pow (by omega))]

/-- A boolean extended with its sign is all ones or zero, and products of these are as without the sign. -/
theorem boolean_products (c : Nat) (u v : BitVec 1) :
    BitVec.setWidth c u * BitVec.setWidth c v = BitVec.signExtend c u * BitVec.signExtend c v := by
  have hone : BitVec.signExtend c (1#1) = -1#c := by
    rw [BitVec.neg_one_eq_allOnes]
    exact signExtend_allOnes Nat.one_pos c
  have hzero : BitVec.signExtend c (0#1) = 0#c := by simp [BitVec.signExtend]
  rcases BitVec.eq_zero_or_eq_one u with rfl | rfl
  · simp [hzero]
  · rcases BitVec.eq_zero_or_eq_one v with rfl | rfl
    · simp [hzero]
    · simp [hone, setWidth_one]

/-- **Integer products depend on the conversion** unless both operands are as wide as the accumulator, or both
are booleans, or one has no bits. -/
theorem sameProducts_integer_iff {a b c : Nat} :
    SameProducts (F := F) (.integer a) (.integer b) (.integer c) ↔
      a = 0 ∨ b = 0 ∨ (a = 1 ∧ b = 1) ∨ (c ≤ a ∧ c ≤ b) := by
  have hreads : SameProducts (F := F) (.integer a) (.integer b) (.integer c) ↔
      ∀ (x : BitVec a) (y : BitVec b), BitVec.setWidth c x * BitVec.setWidth c y =
        BitVec.signExtend c x * BitVec.signExtend c y := Iff.rfl
  rw [hreads]
  constructor
  · intro hall
    by_contra! hnot
    obtain ⟨ha, hb, hbool, hwide⟩ := hnot
    have ha : 0 < a := Nat.pos_of_ne_zero ha
    have hb : 0 < b := Nat.pos_of_ne_zero hb
    -- all ones times one differ, where one is read as one
    by_cases hone : a < c ∧ (2 ≤ b ∨ c ≤ b)
    · have := hall (BitVec.allOnes a) (1#b)
      rw [signExtend_one hone.2, signExtend_allOnes ha, setWidth_one hb, BitVec.mul_one, BitVec.mul_one] at this
      exact setWidth_allOnes_ne hone.1 this
    · have := hall (1#a) (BitVec.allOnes b)
      rw [signExtend_one (by omega), signExtend_allOnes hb, setWidth_one ha, BitVec.one_mul,
        BitVec.one_mul] at this
      exact setWidth_allOnes_ne (by omega) this
  · rintro (rfl | rfl | ⟨rfl, rfl⟩ | ⟨hac, hbc⟩) x y
    · rw [BitVec.eq_nil x]
      simp [BitVec.signExtend]
    · rw [BitVec.eq_nil y]
      simp [BitVec.signExtend]
    · exact boolean_products c x y
    · rw [BitVec.signExtend_eq_setWidth_of_le x hac, BitVec.signExtend_eq_setWidth_of_le y hbc]

/-- The element types for which both conversions give the same products. -/
def SignFree : ElementType F → ElementType F → ElementType F → Prop
  | .integer a, .integer b, .integer c => a = 0 ∨ b = 0 ∨ (a = 1 ∧ b = 1) ∨ (c ≤ a ∧ c ≤ b)
  | .float _, .float _, .float _ => True
  | a, b, c => SameProducts a b c

theorem signFree_iff (a b c : ElementType F) : SignFree a b c ↔ SameProducts a b c := by
  cases a with
  | integer w =>
    cases b with
    | integer v =>
      cases c with
      | integer u => exact sameProducts_integer_iff.symm
      | float f => exact Iff.rfl
    | float g => cases c <;> exact Iff.rfl
  | float f =>
    cases b with
    | integer v => cases c <;> exact Iff.rfl
    | float g =>
      cases c with
      | integer u => exact Iff.rfl
      | float f' => exact iff_of_true trivial fun _ _ => rfl

end IreeRocket.Linalg
