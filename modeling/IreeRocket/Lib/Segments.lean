import Mathlib.Algebra.BigOperators.Group.Finset.Piecewise
import Mathlib.Algebra.BigOperators.Ring.List
import Mathlib.Algebra.Order.BigOperators.Group.Finset
import Mathlib.Algebra.Order.Group.Nat
import Mathlib.Algebra.Ring.Nat
import Mathlib.Order.Interval.Finset.Nat

/-!
# Runs of consecutive segments

A segment is any value with a first position and a count. A list of segments *covers* `[a, b)` when
every segment is nonempty, the first one begins at `a`, each begins where the one before it ended,
and the last one ends at `b`. Every position of `[a, b)` then lies in exactly one member of the list
(`Covers.countP_eq_one`), and two such coverings, one inside each column of the other, split a
rectangle in the same exact way (`Stacked.countP_eq_one`).
-/

namespace IreeRocket.Segments

variable {α β γ τ : Type*}

/-- The position `p` lies in the segment of `count` positions that begins at `first`. -/
def Within (first count p : Nat) : Prop :=
  first ≤ p ∧ p < first + count

instance (first count p : Nat) : Decidable (Within first count p) :=
  inferInstanceAs (Decidable (_ ∧ _))

/-- The segments of a list are nonempty, consecutive, begin at `a` and end at `b`. -/
inductive Covers (first count : α → Nat) : Nat → List α → Nat → Prop
  | nil (a : Nat) : Covers first count a [] a
  | cons {x : α} {l : List α} {b : Nat} (hpos : 0 < count x)
      (htail : Covers first count (first x + count x) l b) : Covers first count (first x) (x :: l) b

/-- Lists related member by member: each member on the left has one on the right. -/
theorem mem_of_forall₂ {R : α → β → Prop} {xs : List α} {ys : List β} (h : List.Forall₂ R xs ys)
    {x : α} (hx : x ∈ xs) : ∃ y ∈ ys, R x y := by
  induction h with
  | nil => cases hx
  | @cons a b as bs hab _ ih =>
    rcases List.mem_cons.mp hx with rfl | hx
    · exact ⟨b, List.mem_cons_self, hab⟩
    · obtain ⟨y, hy, hxy⟩ := ih hx
      exact ⟨y, List.mem_cons_of_mem _ hy, hxy⟩

/-- Members on the right can be chosen one by one. -/
theorem exists_forall₂ {R : α → β → Prop} {xs : List α} (h : ∀ x ∈ xs, ∃ y, R x y) :
    ∃ ys, List.Forall₂ R xs ys := by
  induction xs with
  | nil => exact ⟨[], .nil⟩
  | cons x xs ih =>
    obtain ⟨y, hy⟩ := h x List.mem_cons_self
    obtain ⟨ys, hys⟩ := ih fun x hx => h x (List.mem_cons_of_mem _ hx)
    exact ⟨y :: ys, .cons hy hys⟩

section Line

variable {first count : α → Nat}

/-- The head of a covering, with the start as a variable. -/
theorem Covers.cons' {x : α} {l : List α} {a b : Nat} (ha : first x = a) (hpos : 0 < count x)
    (htail : Covers first count (a + count x) l b) : Covers first count a (x :: l) b := by
  subst ha
  exact .cons hpos htail

theorem Covers.le {a b : Nat} {l : List α} (h : Covers first count a l b) : a ≤ b := by
  induction h with
  | nil => exact le_refl _
  | cons hpos _ ih => omega

theorem Covers.singleton {x : α} {a b : Nat} (ha : first x = a) (hpos : 0 < count x)
    (hb : a + count x = b) : Covers first count a [x] b := by
  refine .cons' ha hpos ?_
  rw [hb]
  exact .nil b

/-- A covering of a nonempty range has a member. -/
theorem Covers.ne_nil {a b : Nat} {l : List α} (h : Covers first count a l b) (hab : a < b) :
    l ≠ [] := by
  rintro rfl
  cases h
  omega

/-- Every member is nonempty and lies inside the covered range. -/
theorem Covers.mem {a b : Nat} {l : List α} (h : Covers first count a l b) {x : α} (hx : x ∈ l) :
    a ≤ first x ∧ 0 < count x ∧ first x + count x ≤ b := by
  induction h with
  | nil => cases hx
  | @cons y l b hpos htail ih =>
    rcases List.mem_cons.mp hx with rfl | hx
    · exact ⟨le_refl _, hpos, htail.le⟩
    · obtain ⟨h1, h2, h3⟩ := ih hx
      exact ⟨by omega, h2, h3⟩

theorem Covers.countP_eq_zero {a b p : Nat} {l : List α} (h : Covers first count a l b) (hp : p < a) :
    l.countP (fun x => decide (Within (first x) (count x) p)) = 0 := by
  rw [List.countP_eq_zero]
  intro x hx hw
  obtain ⟨hfirst, -, -⟩ := h.mem hx
  have hin : Within (first x) (count x) p := of_decide_eq_true hw
  have := hin.1
  omega

/-- **Exactly one member.** A position of the covered range lies in exactly one segment, counted
with multiplicity. -/
theorem Covers.countP_eq_one {a b p : Nat} {l : List α} (h : Covers first count a l b)
    (hap : a ≤ p) (hpb : p < b) :
    l.countP (fun x => decide (Within (first x) (count x) p)) = 1 := by
  induction h with
  | nil => omega
  | @cons x l b hpos htail ih =>
    rw [List.countP_cons]
    by_cases hp : p < first x + count x
    · have hx : Within (first x) (count x) p := ⟨hap, hp⟩
      rw [htail.countP_eq_zero hp, if_pos (by simpa using hx)]
    · have hx : ¬ Within (first x) (count x) p := fun hw => hp hw.2
      rw [ih (by omega) hpb, if_neg (by simpa using hx)]

/-- The counts of a covering add up to the length of its range. -/
theorem Covers.add_sum {a b : Nat} {l : List α} (h : Covers first count a l b) :
    a + (l.map count).sum = b := by
  induction h with
  | nil => simp
  | @cons x l b hpos htail ih =>
    rw [List.map_cons, List.sum_cons, ← Nat.add_assoc]
    exact ih

/-- In a covering, each segment ends before any later one begins. -/
theorem Covers.pairwise {a b : Nat} {l : List α} (h : Covers first count a l b) :
    l.Pairwise fun x y => first x + count x ≤ first y := by
  induction h with
  | nil => exact .nil
  | cons hpos htail ih => exact .cons (fun y hy => (htail.mem hy).1) ih

end Line

/-! ### Segments in any order -/

section Counting

variable {first count : α → Nat} {l : List α} {n : Nat}

/-- Counted over all positions, the segments inside `[0, n)` number their counts. -/
theorem sum_countP_within (hin : ∀ x ∈ l, first x + count x ≤ n) :
    ∑ p ∈ Finset.range n, l.countP (fun x => decide (Within (first x) (count x) p)) = (l.map count).sum := by
  induction l with
  | nil => simp
  | cons x l ih =>
    have hx := hin x List.mem_cons_self
    have hfilter : (Finset.range n).filter (fun p => Within (first x) (count x) p) =
        Finset.Ico (first x) (first x + count x) := by
      apply Finset.ext
      intro p
      rw [Finset.mem_filter, Finset.mem_range, Finset.mem_Ico]
      unfold Within
      omega
    simp only [List.countP_cons, decide_eq_true_eq, Finset.sum_add_distrib,
      ih fun y hy => hin y (List.mem_cons_of_mem _ hy), List.map_cons, List.sum_cons]
    rw [Nat.add_comm, ← Finset.card_filter, hfilter, Nat.card_Ico, Nat.add_sub_cancel_left]

/-- **Segments that cover `[0, n)` and add up to `n` cover each position once.** -/
theorem countP_eq_one_of_sum (hin : ∀ x ∈ l, first x + count x ≤ n) (hsum : (l.map count).sum = n)
    (hcover : ∀ p < n, ∃ x ∈ l, Within (first x) (count x) p) {p : Nat} (hp : p < n) :
    l.countP (fun x => decide (Within (first x) (count x) p)) = 1 := by
  have hle : ∀ q ∈ Finset.range n, 1 ≤ l.countP (fun x => decide (Within (first x) (count x) q)) := by
    intro q hq
    obtain ⟨x, hx, hwithin⟩ := hcover q (Finset.mem_range.mp hq)
    exact List.countP_pos_iff.mpr ⟨x, hx, decide_eq_true hwithin⟩
  have htotal : ∑ q ∈ Finset.range n, 1 =
      ∑ q ∈ Finset.range n, l.countP (fun x => decide (Within (first x) (count x) q)) := by
    rw [sum_countP_within hin, hsum, Finset.sum_const, Finset.card_range, Nat.nsmul_eq_mul, Nat.mul_one]
  exact ((Finset.sum_eq_sum_iff_of_le hle).mp htotal p (Finset.mem_range.mpr hp)).symm

/-- Two members that a predicate counted once holds of are the same. -/
theorem eq_of_countP_eq_one {P : α → Bool} (h : l.countP P = 1) {x y : α} (hx : x ∈ l) (hy : y ∈ l)
    (hPx : P x = true) (hPy : P y = true) : x = y := by
  rw [List.countP_eq_length_filter, List.length_eq_one_iff] at h
  obtain ⟨z, hz⟩ := h
  have hx' : x ∈ l.filter P := List.mem_filter.mpr ⟨hx, hPx⟩
  have hy' : y ∈ l.filter P := List.mem_filter.mpr ⟨hy, hPy⟩
  rw [hz, List.mem_singleton] at hx' hy'
  rw [hx', hy']

end Counting

/-! ### Cutting at a list of boundaries -/

/-- One segment between each boundary and the next one. -/
def cutAt (cut : Nat → Nat → α) : Nat → List Nat → List α
  | _, [] => []
  | a, b :: l => cut a b :: cutAt cut b l

/-- The segments between the members of an increasing list cover its span. -/
theorem covers_cutAt (first count : α → Nat) (cut : Nat → Nat → α)
    (hfirst : ∀ a b, first (cut a b) = a) (hcount : ∀ a b, count (cut a b) = b - a) :
    ∀ (a : Nat) (l : List Nat), List.IsChain (· < ·) (a :: l) →
      Covers first count a (cutAt cut a l) (l.getLastD a)
  | a, [], _ => .nil a
  | a, b :: l, h => by
    obtain ⟨hab, htail⟩ := List.isChain_cons_cons.mp h
    rw [List.getLastD_cons]
    refine .cons' (hfirst a b) (by rw [hcount]; omega) ?_
    rw [hcount, show a + (b - a) = b by omega]
    exact covers_cutAt first count cut hfirst hcount b l htail

theorem le_getLastD_of_isChain : ∀ {a : Nat} {l : List Nat}, List.IsChain (· < ·) (a :: l) →
    a ≤ l.getLastD a
  | a, [], _ => le_refl a
  | a, b :: l, h => by
    obtain ⟨hab, htail⟩ := List.isChain_cons_cons.mp h
    rw [List.getLastD_cons]
    exact hab.le.trans (le_getLastD_of_isChain htail)

/-- A member of `cutAt` runs from the start or an inner boundary to a later boundary. -/
theorem mem_cutAt {cut : Nat → Nat → α} {t : α} : ∀ {a : Nat} {l : List Nat},
    List.IsChain (· < ·) (a :: l) → t ∈ cutAt cut a l →
      ∃ x y, t = cut x y ∧ x < y ∧ y ≤ l.getLastD a ∧ (x = a ∨ x ∈ l)
  | _, [], _, h => by simp [cutAt] at h
  | a, b :: l, hchain, h => by
    obtain ⟨hab, htail⟩ := List.isChain_cons_cons.mp hchain
    rw [List.getLastD_cons]
    rcases List.mem_cons.mp h with rfl | h
    · exact ⟨a, b, rfl, hab, le_getLastD_of_isChain htail, .inl rfl⟩
    · obtain ⟨x, y, ht, hxy, hy, hx⟩ := mem_cutAt htail h
      refine ⟨x, y, ht, hxy, hy, .inr ?_⟩
      rcases hx with rfl | hx
      · exact List.mem_cons_self
      · exact List.mem_cons_of_mem _ hx

/-- A member of `cutAt` runs between related boundaries. -/
theorem mem_cutAt_of_isChain {cut : Nat → Nat → α} {R : Nat → Nat → Prop} {t : α} :
    ∀ {a : Nat} {l : List Nat}, List.IsChain R (a :: l) → t ∈ cutAt cut a l →
      ∃ x y, t = cut x y ∧ R x y
  | _, [], _, h => absurd h List.not_mem_nil
  | a, b :: l, hchain, h => by
    obtain ⟨hab, htail⟩ := List.isChain_cons_cons.mp hchain
    rcases List.mem_cons.mp h with rfl | h
    · exact ⟨a, b, rfl, hab⟩
    · exact mem_cutAt_of_isChain htail h

/-- The starts of a covering, with its end after them: each segment relates its own to the next. -/
theorem Covers.starts_isChain {first count : α → Nat} {R : Nat → Nat → Prop} {l : List α} {a b : Nat}
    (h : Covers first count a l b) (hne : l ≠ []) (hR : ∀ x ∈ l, R (first x) (first x + count x)) :
    ∃ starts, l.map first = a :: starts ∧ List.IsChain R (a :: (starts ++ [b])) := by
  induction h with
  | nil => exact absurd rfl hne
  | @cons x l b hpos htail ih =>
    refine ⟨l.map first, rfl, ?_⟩
    have hx := hR x List.mem_cons_self
    by_cases hl : l = []
    · subst hl
      have hend : b = first x + count x := by
        have hle := htail.le
        by_contra hne
        exact htail.ne_nil (by omega) rfl
      exact List.isChain_cons_cons.mpr ⟨hend ▸ hx, .singleton _⟩
    · obtain ⟨starts, hstarts, hchain⟩ := ih hl fun y hy => hR y (List.mem_cons_of_mem _ hy)
      rw [hstarts]
      exact List.isChain_cons_cons.mpr ⟨hx, hchain⟩

/-- They are strictly increasing. -/
theorem Covers.starts_chain {first count : α → Nat} {l : List α} {a b : Nat}
    (h : Covers first count a l b) (hne : l ≠ []) :
    ∃ starts, l.map first = a :: starts ∧ List.IsChain (· < ·) (a :: (starts ++ [b])) :=
  h.starts_isChain hne fun _ hx => Nat.lt_add_of_pos_right (h.mem hx).2.1

/-- Cutting at the starts of a covering gives the covering back. -/
theorem Covers.cutAt_starts {first count : α → Nat} {cut : Nat → Nat → α} {l : List α} {a b : Nat}
    (h : Covers first count a l b) (hcut : ∀ x ∈ l, cut (first x) (first x + count x) = x) :
    ∀ {starts : List Nat}, l.map first = a :: starts → cutAt cut a (starts ++ [b]) = l := by
  induction h with
  | nil => intro starts hstarts; cases hstarts
  | @cons x l b hpos htail ih =>
    intro starts hstarts
    obtain rfl : l.map first = starts := (List.cons.inj hstarts).2
    have hx := hcut x List.mem_cons_self
    by_cases hl : l = []
    · subst hl
      have hend : b = first x + count x := by
        have := htail.le
        by_contra hne
        exact htail.ne_nil (by omega) rfl
      simp [cutAt, hend, hx]
    · obtain ⟨starts, hstarts, -⟩ := htail.starts_chain hl
      have hrest := ih (fun z hz => hcut z (List.mem_cons_of_mem _ hz)) hstarts
      rw [hstarts, List.cons_append, cutAt, hx, hrest]

/-! ### Rectangles -/

/-- `Stacked mk rowFirst rowCount height cols tiles`: `tiles` lists, column by column, the members
of one row covering of `[0, height)` for every column. -/
inductive Stacked (mk : β → γ → τ) (rowFirst rowCount : β → Nat) (height : Nat) :
    List γ → List τ → Prop
  | nil : Stacked mk rowFirst rowCount height [] []
  | cons {c : γ} {cols : List γ} {rows : List β} {tiles : List τ}
      (hrows : Covers rowFirst rowCount 0 rows height)
      (htail : Stacked mk rowFirst rowCount height cols tiles) :
      Stacked mk rowFirst rowCount height (c :: cols) (rows.map (fun r => mk r c) ++ tiles)

section Rectangle

variable {mk : β → γ → τ} {rowFirst rowCount : β → Nat} {colFirst colCount : γ → Nat}
variable (rowOf : τ → β) (colOf : τ → γ) {height width : Nat} {cols : List γ} {tiles : List τ}

/-- Every stacked tile comes from one column and one member of a row covering. -/
theorem Stacked.mem (h : Stacked mk rowFirst rowCount height cols tiles) {t : τ} (ht : t ∈ tiles) :
    ∃ r, ∃ c ∈ cols, t = mk r c ∧ 0 < rowCount r ∧ rowFirst r + rowCount r ≤ height := by
  induction h with
  | nil => cases ht
  | @cons c cols rows tiles hrows _ ih =>
    rcases List.mem_append.mp ht with ht | ht
    · obtain ⟨r, hr, rfl⟩ := List.mem_map.mp ht
      have := hrows.mem hr
      exact ⟨r, c, by simp, rfl, this.2.1, this.2.2⟩
    · obtain ⟨r, c', hc', rest⟩ := ih ht
      exact ⟨r, c', by simp [hc'], rest⟩

/-- Every column of a stack of a nonempty height has a tile. -/
theorem Stacked.exists_mem (h : Stacked mk rowFirst rowCount height cols tiles)
    (hheight : 0 < height) {c : γ} (hc : c ∈ cols) : ∃ r, mk r c ∈ tiles := by
  induction h with
  | nil => cases hc
  | @cons x cols rows tiles hrows _ ih =>
    rcases List.mem_cons.mp hc with rfl | hc
    · obtain ⟨r, hr⟩ := List.exists_mem_of_ne_nil _ (hrows.ne_nil hheight)
      exact ⟨r, List.mem_append_left _ (List.mem_map_of_mem hr)⟩
    · obtain ⟨r, hr⟩ := ih hc
      exact ⟨r, List.mem_append_right _ hr⟩

/-- In a stack, the tiles that hold `(r, c)` number as many as the columns that hold `c`. -/
theorem Stacked.countP (hrow : ∀ r c, rowOf (mk r c) = r) (hcol : ∀ r c, colOf (mk r c) = c)
    (h : Stacked mk rowFirst rowCount height cols tiles) {r c : Nat} (hr : r < height) :
    tiles.countP (fun t => decide (Within (rowFirst (rowOf t)) (rowCount (rowOf t)) r ∧
        Within (colFirst (colOf t)) (colCount (colOf t)) c)) =
      cols.countP (fun x => decide (Within (colFirst x) (colCount x) c)) := by
  induction h with
  | nil => rfl
  | @cons x cols rows tiles hrows _ ih =>
    rw [List.countP_append, ih, List.countP_cons, List.countP_map, Nat.add_comm]
    congr 1
    simp only [Function.comp_def, hrow, hcol]
    by_cases hx : Within (colFirst x) (colCount x) c
    · simp only [hx, and_true, decide_true, if_true]
      exact hrows.countP_eq_one (Nat.zero_le r) hr
    · simp [hx]

/-- **Exactly one tile.** When the columns cover `[0, width)` as well, every point of the rectangle
lies in exactly one tile. -/
theorem Stacked.countP_eq_one (hrow : ∀ r c, rowOf (mk r c) = r) (hcol : ∀ r c, colOf (mk r c) = c)
    (h : Stacked mk rowFirst rowCount height cols tiles)
    (hcols : Covers colFirst colCount 0 cols width) {r c : Nat} (hr : r < height) (hc : c < width) :
    tiles.countP (fun t => decide (Within (rowFirst (rowOf t)) (rowCount (rowOf t)) r ∧
        Within (colFirst (colOf t)) (colCount (colOf t)) c)) = 1 := by
  rw [h.countP rowOf colOf hrow hcol hr]
  exact hcols.countP_eq_one (Nat.zero_le c) hc

/-- The areas of the tiles of a stack add up to its height times the widths of its columns. -/
theorem Stacked.sum_area (hrow : ∀ r c, rowOf (mk r c) = r) (hcol : ∀ r c, colOf (mk r c) = c)
    (h : Stacked mk rowFirst rowCount height cols tiles) :
    (tiles.map fun t => rowCount (rowOf t) * colCount (colOf t)).sum =
      height * (cols.map colCount).sum := by
  induction h with
  | nil => simp
  | @cons c cols rows tiles hrows _ ih =>
    have hcolumn : (rows.map (fun r => rowCount r * colCount c)).sum = height * colCount c := by
      have hsum := hrows.add_sum
      rw [Nat.zero_add] at hsum
      rw [List.sum_map_mul_right, hsum]
    rw [List.map_append, List.sum_append, ih, List.map_map, List.map_cons, List.sum_cons, Nat.mul_add,
      ← hcolumn]
    simp only [Function.comp_def, hrow, hcol]

end Rectangle

end IreeRocket.Segments
